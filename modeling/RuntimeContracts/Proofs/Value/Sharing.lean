import RuntimeContracts.Proofs.Value.Allocation

/-!
The shortcut of exact equality. Handles of one allocation have the same content, and content is equal to
itself, NaNs included, so stopping at a shared allocation answers what a comparison of all contents would.
The answer does not depend on what is shared.
-/
namespace RuntimeContracts.Value

mutual

def unallocated : Value → Value
  | undefined => undefined
  | null => null
  | bool b => bool b
  | number n => number n
  | string s => string s
  | list _ items => list 0 (unallocatedItems items)
  | record _ fields => record 0 (unallocatedFields fields)
  | inst c _ fields => inst c 0 (unallocatedFields fields)
  | function f => function f

def unallocatedItems : List Value → List Value
  | [] => []
  | v :: vs => unallocated v :: unallocatedItems vs

def unallocatedFields : List (String × Value) → List (String × Value)
  | [] => []
  | (k, v) :: es => (k, unallocated v) :: unallocatedFields es

end

/-- One value is the other with some or all of its parts built anew, in allocations of their own. -/
def Rebuilds (v u : Value) : Prop := u.unallocated = v.unallocated

section Rebuilding

mutual

theorem content_unallocated : ∀ v : Value, v.unallocated.content = v.content
  | undefined | null | bool _ | number _ | string _ | function _ => rfl
  | list _ items => by simp only [unallocated, content, contentOfItems_unallocated items]
  | record _ fields => by simp only [unallocated, content, contentOfFields_unallocated fields]
  | inst c _ fields => by simp only [unallocated, content, contentOfFields_unallocated fields]

theorem contentOfItems_unallocated :
    ∀ vs : List Value, contentOfItems (unallocatedItems vs) = contentOfItems vs
  | [] => rfl
  | v :: vs => by
    simp only [unallocatedItems, contentOfItems, content_unallocated v, contentOfItems_unallocated vs]

theorem contentOfFields_unallocated :
    ∀ es : List (String × Value), contentOfFields (unallocatedFields es) = contentOfFields es
  | [] => rfl
  | (k, v) :: es => by
    simp only [unallocatedFields, contentOfFields, content_unallocated v, contentOfFields_unallocated es]

end

/-- Building anew leaves the content. -/
theorem content_eq_of_rebuilds {u v : Value} (h : v.Rebuilds u) : u.content = v.content := by
  rw [← content_unallocated u, h, content_unallocated v]

/-- What is built anew is equal to what it was built from. -/
theorem beq_eq_of_rebuilds {a a' b b' : Value} (ha : a'.Rebuilds a) (hb : b'.Rebuilds b) :
    beq a' b' = beq a b := by
  rw [Bool.eq_iff_iff, beq_iff_content, beq_iff_content, content_eq_of_rebuilds ha,
    content_eq_of_rebuilds hb]

end Rebuilding

section Shortcut

variable {memory : Memory}

/-- A comparison may stop at a shared allocation if it would not fail there. -/
theorem shortcut_eq {i j : Nat} {shared full : Bool} (h : shared = full) (hself : i = j → full = true) :
    (i == j || shared) = full := by
  by_cases hij : i = j
  · simp [hij, hself hij]
  · simp [hij, h]

mutual

/-- The shortcut is taken at handles of one allocation only, where the contents are equal. -/
theorem beqShared_eq : ∀ {a b : Value}, a.LivesIn memory → b.LivesIn memory → beqShared a b = beq a b
  | undefined, b, _, _ | null, b, _, _ | bool _, b, _, _ | number _, b, _, _ | string _, b, _, _
  | function _, b, _, _ => by
    cases b <;> rfl
  | list i xs, b, ha, hb => by
    cases b with
    | list j ys =>
      refine shortcut_eq (beqSharedItems_eq (fun _ => ha.item rfl) fun _ => hb.item rfl) fun hij => ?_
      cases ha.eq_of_identity? hb rfl (hij ▸ rfl)
      exact beqItems_refl xs
    | _ => rfl
  | record i xs, b, ha, hb => by
    cases b with
    | record j ys =>
      refine shortcut_eq (beqSharedFields_eq (fun _ => ha.field rfl) fun _ => hb.field rfl) fun hij => ?_
      cases ha.eq_of_identity? hb rfl (hij ▸ rfl)
      exact beqFields_refl xs
    | _ => rfl
  | inst c i xs, b, ha, hb => by
    cases b with
    | inst d j ys =>
      refine congrArg (c == d && ·) (shortcut_eq ?_ fun hij => ?_)
      · exact beqSharedFields_eq (fun _ => ha.field rfl) fun _ => hb.field rfl
      · cases ha.eq_of_identity? hb rfl (hij ▸ rfl)
        exact beqFields_refl xs
    | _ => rfl

theorem beqSharedItems_eq : ∀ {xs ys : List Value}, (∀ v ∈ xs, v.LivesIn memory) →
    (∀ v ∈ ys, v.LivesIn memory) → beqSharedItems xs ys = beqItems xs ys
  | [], ys, _, _ => by cases ys <;> rfl
  | x :: xs, [], _, _ => rfl
  | x :: xs, y :: ys, hxs, hys => by
    rw [List.forall_mem_cons] at hxs hys
    simp only [beqSharedItems, beqItems, beqShared_eq hxs.1 hys.1, beqSharedItems_eq hxs.2 hys.2]

theorem beqSharedFields_eq : ∀ {xs ys : List (String × Value)}, (∀ e ∈ xs, e.2.LivesIn memory) →
    (∀ e ∈ ys, e.2.LivesIn memory) → beqSharedFields xs ys = beqFields xs ys
  | [], ys, _, _ => by cases ys <;> rfl
  | (k, x) :: xs, [], _, _ => rfl
  | (k, x) :: xs, (l, y) :: ys, hxs, hys => by
    rw [List.forall_mem_cons] at hxs hys
    simp only [beqSharedFields, beqFields, beqShared_eq hxs.1 hys.1, beqSharedFields_eq hxs.2 hys.2]

end

end Shortcut

/-- The shortcut answers what a comparison of contents does. Hence it decides an equivalence, and building
parts of the values anew, then or later, does not change the answer. -/
structure ComparesContents (a b c : Value) : Prop where
  structural : beqShared a b = beq a b
  refl : beqShared a a = true
  symm : beqShared a b = beqShared b a
  trans : beqShared a b = true → beqShared b c = true → beqShared a c = true
  rebuilt : ∀ (later : Memory) (a' b' : Value), a'.LivesIn later → b'.LivesIn later → a'.Rebuilds a →
    b'.Rebuilds b → beqShared a' b' = beqShared a b

theorem shortcut_compares_contents (memory : Memory) {a b c : Value} (ha : a.LivesIn memory)
    (hb : b.LivesIn memory) (hc : c.LivesIn memory) : ComparesContents a b c where
  structural := beqShared_eq ha hb
  refl := by
    rw [beqShared_eq ha ha]
    exact beq_refl a
  symm := by
    rw [beqShared_eq ha hb, beqShared_eq hb ha]
    exact Bool.eq_iff_iff.mpr ⟨beq_symm, beq_symm⟩
  trans := by
    rw [beqShared_eq ha hb, beqShared_eq hb hc, beqShared_eq ha hc]
    exact beq_trans
  rebuilt later a' b' ha' hb' hfrom hfrom' := by
    rw [beqShared_eq ha' hb', beqShared_eq ha hb]
    exact beq_eq_of_rebuilds hfrom hfrom'

/-- A NaN in two lists of different allocations, and lists that share one of them or both. -/
theorem shortcut_compares_contents_nan :
    let nan := float ⟨0x7ff8000000000000⟩
    let x := list 0 [nan]
    let y := list 1 [nan]
    let a := list 2 [x, x]
    let b := list 3 [y, x]
    let c := list 4 [y, y]
    (∃ memory, a.LivesIn memory ∧ b.LivesIn memory ∧ c.LivesIn memory) ∧ ComparesContents a b c ∧
      b.Rebuilds a ∧ beqShared a b = true := by
  intro nan x y a b c
  have hmade : Relation.ReflTransGen Stock.Step .empty ⟨5, [], [c, b, a, y, x, nan]⟩ := by
    refine Relation.ReflTransGen.tail (.tail (.tail (.tail (.tail (.single (.plain nan rfl))
      (.list [nan] ?_)) (.list [nan] ?_)) (.list [x, x] ?_)) (.list [y, x] ?_)) (.list [y, y] ?_)
    all_goals simp [Stock.empty, Stock.keep, Stock.allocate, x, y]
  obtain ⟨memory, hlives⟩ := Stock.exists_livesIn hmade
  have ha : a.LivesIn memory := hlives a (by simp)
  have hb : b.LivesIn memory := hlives b (by simp)
  have hc : c.LivesIn memory := hlives c (by simp)
  exact ⟨⟨memory, ha, hb, hc⟩, shortcut_compares_contents memory ha hb hc, rfl, by decide +kernel⟩

end RuntimeContracts.Value
