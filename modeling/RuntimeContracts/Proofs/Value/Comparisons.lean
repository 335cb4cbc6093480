import RuntimeContracts.Proofs.Value.Numbers
import RuntimeContracts.Proofs.Value.Sameness
import RuntimeContracts.Proofs.Value.Sharing

/-!
The three comparisons next to each other. Without NaNs, what is the same or exactly equal agrees
numerically; what is the same and no number is exactly equal. All three are symmetric, and values that any
of them relates look alike to a diagnostic. Only a NaN keeps a value from agreeing with itself.
-/
namespace RuntimeContracts.Value

section Agreement

variable {a b : Value}

theorem agrees_symm (h : agrees a b = true) : agrees b a = true := by
  obtain ⟨hskeleton, hnumbers⟩ := (agrees_iff a b).mp h
  refine (agrees_iff b a).mpr ⟨hskeleton.symm, List.Forall₂.flip (hnumbers.imp fun m n hmn => ?_)⟩
  exact Number.numericEq_symm hmn

theorem agrees_self_iff (a : Value) : agrees a a = true ↔ a.NaNFree := by
  rw [agrees_iff, NumbersAgree, List.forall₂_same]
  simp [Number.numericEq_self, NaNFree]

/-- Where there is no NaN, values of one content agree. -/
theorem agrees_of_beq (ha : a.NaNFree) (h : beq a b = true) : agrees a b = true := by
  have hcontent : a.content = b.content := (beq_iff_content a b).mp h
  have hskeleton : a.skeleton = b.skeleton := by
    rw [← skeleton_content a, hcontent, skeleton_content b]
  have hnumbers : a.numbers = b.numbers := by
    rw [← numbers_content a, hcontent, numbers_content b]
  refine (agrees_iff a b).mpr ⟨hskeleton, hnumbers ▸ ?_⟩
  exact ((agrees_iff a a).mp ((agrees_self_iff a).mpr ha)).2

theorem shape_eq_of_agrees (known : Nat → Class) (h : agrees a b = true) :
    a.shape known = b.shape known := by
  rw [← shape_skeleton known a, ((agrees_iff a b).mp h).1, shape_skeleton known b]

end Agreement

section Memory

theorem identity?_handle (v : Value) : v.handle.identity? = v.identity? := by
  cases v <;> rfl

variable {memory : Memory} {a b : Value}

/-- In one memory, what is the same and no number has the same content. -/
theorem beq_of_same (ha : a.LivesIn memory) (hb : b.LivesIn memory) (hkind : a.kind ≠ .number)
    (h : same a b = true) : beq a b = true := by
  cases hid : a.identity? with
  | some id =>
    have hid' : b.identity? = some id := by
      rw [← hid, ← identity?_handle a, ← identity?_handle b, (same_iff_handle hkind).mp h]
    cases ha.eq_of_identity? hb hid hid'
    exact beq_refl a
  | none =>
    cases a with
    | number n => exact absurd rfl hkind
    | list id items => cases hid
    | record id fields => cases hid
    | inst cls id fields => cases hid
    | _ => cases b <;> exact h

/-- Without a NaN, what is the same agrees. -/
theorem agrees_of_same (ha : a.LivesIn memory) (hb : b.LivesIn memory) (hnan : a.NaNFree)
    (h : same a b = true) : agrees a b = true := by
  by_cases hkind : a.kind = .number
  · obtain ⟨m, n, rfl, rfl, hmn⟩ := exists_numbers_of_same h hkind
    exact hmn
  · exact agrees_of_beq hnan (beq_of_same ha hb hkind h)

theorem shape_eq_of_same (ha : a.LivesIn memory) (hb : b.LivesIn memory) (h : same a b = true) :
    a.shape memory.classes = b.shape memory.classes := by
  by_cases hkind : a.kind = .number
  · obtain ⟨m, n, rfl, rfl, -⟩ := exists_numbers_of_same h hkind
    rfl
  · exact shape_eq_of_beq _ (beq_of_same ha hb hkind h)

/-- Values of one shape are of one kind and are described alike. -/
theorem described_alike (ha : a.LivesIn memory) (hb : b.LivesIn memory)
    (h : a.shape memory.classes = b.shape memory.classes) :
    a.kind = b.kind ∧ a.describe = b.describe := by
  constructor
  · rw [← kind_shape memory.classes a, h, kind_shape]
  · rw [← describe_shape ha.declared, h, describe_shape hb.declared]

end Memory

structure ComparisonsNest (a b : Value) : Prop where
  agrees_of_equal : a.NaNFree → b.NaNFree → beqShared a b = true → agrees a b = true
  agrees_of_same : a.NaNFree → b.NaNFree → same a b = true → agrees a b = true
  equal_of_same : a.kind ≠ .number → same a b = true → beqShared a b = true
  equal_symm : beqShared a b = true → beqShared b a = true
  agrees_symm : agrees a b = true → agrees b a = true
  same_symm : same a b = true → same b a = true
  described : beqShared a b = true ∨ agrees a b = true ∨ same a b = true →
    a.kind = b.kind ∧ a.describe = b.describe
  agrees_self : agrees a a = true ↔ a.NaNFree

theorem comparisons_nest (memory : Memory) {a b : Value} (ha : a.LivesIn memory)
    (hb : b.LivesIn memory) : ComparisonsNest a b where
  agrees_of_equal hnan _ h := agrees_of_beq hnan (beqShared_eq ha hb ▸ h)
  agrees_of_same hnan _ h := agrees_of_same ha hb hnan h
  equal_of_same hkind h := (beqShared_eq ha hb).trans (beq_of_same ha hb hkind h)
  equal_symm h := (beqShared_eq hb ha).trans (beq_symm ((beqShared_eq ha hb).symm.trans h))
  agrees_symm := agrees_symm
  same_symm := same_symm
  described h := by
    refine described_alike ha hb ?_
    rcases h with hequal | hagrees | hsame
    · exact shape_eq_of_beq _ ((beqShared_eq ha hb).symm.trans hequal)
    · exact shape_eq_of_agrees _ hagrees
    · exact shape_eq_of_same ha hb hsame
  agrees_self := agrees_self_iff a

/-- Two instances of a subclass that agree, although they are neither equal nor the same. -/
theorem comparisons_nest_subclass :
    let point := Class.root 0 "Point"
    let pixel := Class.extending 1 "Pixel" point
    let a := instantiate pixel 2 [("x", int 2)]
    let b := instantiate pixel 3 [("x", float ⟨0x4000000000000000⟩)]
    (∃ memory, a.LivesIn memory ∧ b.LivesIn memory) ∧ ComparisonsNest a b ∧
      agrees a b = true ∧ beqShared a b = false ∧ same a b = false ∧ a.describe = b.describe := by
  intro point pixel a b
  have hmade : Relation.ReflTransGen Stock.Step .empty
      ⟨4, [pixel, point], [b, float ⟨0x4000000000000000⟩, a, int 2]⟩ := by
    refine Relation.ReflTransGen.tail (.tail (.tail (.tail (.tail (.single (.root "Point"))
      (.extending "Pixel" point ?_)) (.plain (int 2) rfl)) (.inst pixel ?_ [("x", int 2)] ?_))
      (.plain (float ⟨0x4000000000000000⟩) rfl))
      (.inst pixel ?_ [("x", float ⟨0x4000000000000000⟩)] ?_)
    all_goals simp [Stock.empty, Stock.define, Stock.keep, Stock.allocate, point, pixel]
  obtain ⟨memory, hlives⟩ := Stock.exists_livesIn hmade
  have ha : a.LivesIn memory := hlives a (by simp)
  have hb : b.LivesIn memory := hlives b (by simp)
  have hnest := comparisons_nest memory ha hb
  have hagrees : agrees a b = true := by decide +kernel
  exact ⟨⟨memory, ha, hb⟩, hnest, hagrees, by decide +kernel, by decide +kernel,
    (hnest.described (Or.inr (Or.inl hagrees))).2⟩

end RuntimeContracts.Value
