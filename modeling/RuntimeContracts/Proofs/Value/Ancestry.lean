import Mathlib.Data.List.Nodup
import Mathlib.Data.List.Perm.Subperm
import Mathlib.Logic.Relation
import RuntimeContracts.Proofs.Spec.Meaning

/-!
The order of classes. Where every class was defined after its parent and under an identity of its own,
being a subclass is being reached by steps to the parent: an order in which the ancestors of a class form a
chain. The walk that decides it visits every class at most once and never looks at a name.
-/
namespace RuntimeContracts

namespace Class

def Extends (c p : Class) : Prop := c.parent? = some p

def Reaches : Class → Class → Prop := Relation.ReflTransGen Extends

theorem beq_iff_id (c d : Class) : c == d ↔ c.id = d.id := by
  change (c.id == d.id) = true ↔ _
  exact beq_iff_eq

/-- Some classes, each defined after its parent and with an identity that no other has. -/
structure Lineage (next : Nat) (cs : List Class) : Prop where
  below : ∀ c ∈ cs, c.id < next
  unique : ∀ c ∈ cs, ∀ d ∈ cs, c == d → c = d
  parents : ∀ c ∈ cs, ∀ p, c.Extends p → p ∈ cs
  older : ∀ c ∈ cs, ∀ p, c.Extends p → p.id < c.id

theorem lineage_nil (next : Nat) : Lineage next [] where
  below := by simp
  unique := by simp
  parents := by simp
  older := by simp

theorem Lineage.mono {next next' : Nat} {cs : List Class} (h : Lineage next cs) (hle : next ≤ next') :
    Lineage next' cs :=
  ⟨fun c hc => Nat.lt_of_lt_of_le (h.below c hc) hle, h.unique, h.parents, h.older⟩

/-- A new class is the youngest. -/
theorem Lineage.cons {next : Nat} {cs : List Class} (h : Lineage next cs) {c : Class} (hid : c.id = next)
    (hparent : ∀ p, c.Extends p → p ∈ cs) : Lineage (next + 1) (c :: cs) where
  below d hd := by
    rcases List.mem_cons.mp hd with rfl | hd
    · exact hid ▸ Nat.lt_succ_self next
    · exact Nat.lt_succ_of_lt (h.below d hd)
  unique d hd d' hd' hsame := by
    have hid' := (beq_iff_id d d').mp hsame
    rcases List.mem_cons.mp hd with rfl | hold <;> rcases List.mem_cons.mp hd' with rfl | hold'
    · rfl
    · exact absurd (hid'.symm.trans hid) (Nat.ne_of_lt (h.below d' hold'))
    · exact absurd (hid'.trans hid) (Nat.ne_of_lt (h.below d hold))
    · exact h.unique d hold d' hold' hsame
  parents d hd p hp := by
    rcases List.mem_cons.mp hd with rfl | hd
    · exact List.mem_cons_of_mem _ (hparent p hp)
    · exact List.mem_cons_of_mem _ (h.parents d hd p hp)
  older d hd p hp := by
    rcases List.mem_cons.mp hd with rfl | hd
    · exact hid ▸ h.below p (hparent p hp)
    · exact h.older d hd p hp

def seek (ancestor : Class) : (rounds : Nat) → Option Class → Option Bool
  | _, none => some false
  | 0, some _ => none
  | rounds + 1, some c => if c == ancestor then some true else seek ancestor rounds c.parent?

theorem seek_none (ancestor : Class) (rounds : Nat) : seek ancestor rounds none = some false := by
  cases rounds <;> rfl

def line : Class → List Class
  | root id name => [root id name]
  | extending id name parent => extending id name parent :: parent.line

def named (names : Nat → String) : Class → Class
  | root id _ => root id (names id)
  | extending id _ parent => extending id (names id) (parent.named names)

theorem id_named (names : Nat → String) (c : Class) : (c.named names).id = c.id := by cases c <;> rfl

theorem isSubclassOf_root (id : Nat) (name : String) (a : Class) :
    (root id name).isSubclassOf a = (root id name == a) := by rw [isSubclassOf, Bool.or_false]

theorem isSubclassOf_extending (id : Nat) (name : String) (parent a : Class) :
    (extending id name parent).isSubclassOf a =
      (extending id name parent == a || parent.isSubclassOf a) := rfl

/-- Names play no part. -/
theorem isSubclassOf_named (names names' : Nat → String) (c a : Class) :
    (c.named names).isSubclassOf (a.named names') = c.isSubclassOf a := by
  have hsame : ∀ d : Class, (d.named names == a.named names') = (d == a) := by
    intro d
    change ((d.named names).id == (a.named names').id) = (d.id == a.id)
    rw [id_named, id_named]
  induction c with
  | root id name =>
    have hroot := hsame (root id name)
    rw [isSubclassOf_root]
    exact (isSubclassOf_root id (names id) _).trans hroot
  | extending id name parent ih =>
    have hextending := hsame (extending id name parent)
    rw [isSubclassOf_extending, ← ih, ← hextending]
    rfl

/-- The walk decides the relation if it has a round for every class of the line. -/
theorem seek_eq (a c : Class) (rounds : Nat) (h : c.line.length ≤ rounds) :
    seek a rounds (some c) = some (c.isSubclassOf a) := by
  induction c generalizing rounds with
  | root id name =>
    cases rounds with
    | zero => exact absurd h (Nat.not_succ_le_zero 0)
    | succ rounds =>
      rw [seek, isSubclassOf_root]
      cases root id name == a with
      | true => rfl
      | false => exact seek_none a rounds
  | extending id name parent ih =>
    cases rounds with
    | zero => exact absurd h (Nat.not_succ_le_zero _)
    | succ rounds =>
      rw [seek, isSubclassOf_extending]
      cases extending id name parent == a with
      | true => rfl
      | false => exact ih rounds (Nat.le_of_succ_le_succ h)

section Order

variable {next : Nat} {cs : List Class} (h : Lineage next cs)

include h

/-- No ancestor is younger. -/
theorem Lineage.id_le {c a : Class} (hc : c ∈ cs) (hreach : c.Reaches a) : a ∈ cs ∧ a.id ≤ c.id := by
  induction hreach with
  | refl => exact ⟨hc, Nat.le_refl _⟩
  | tail _ hstep ih =>
    refine ⟨h.parents _ ih.1 _ hstep, ?_⟩
    exact Nat.le_trans (Nat.le_of_lt (h.older _ ih.1 _ hstep)) ih.2

/-- A subclass is a class from which the ancestor is reached, and nothing else is. -/
theorem Lineage.isSubclassOf_iff {c a : Class} (hc : c ∈ cs) (ha : a ∈ cs) :
    c.isSubclassOf a ↔ c.Reaches a := by
  have hself : ∀ d ∈ cs, (d == a) = true ↔ a = d := fun d hd =>
    ⟨fun hsame => (h.unique d hd a ha hsame).symm, fun hsame => (beq_iff_id d a).mpr (hsame ▸ rfl)⟩
  induction c with
  | root id name =>
    have hstop : ¬∃ p, (root id name).Extends p ∧ p.Reaches a := fun ⟨p, hp, _⟩ => nomatch hp
    rw [isSubclassOf_root, hself _ hc, Reaches, Relation.ReflTransGen.cases_head_iff, eq_comm]
    exact (or_iff_left hstop).symm
  | extending id name parent ih =>
    have hparent := h.parents _ hc parent rfl
    have hstep : (∃ p, (extending id name parent).Extends p ∧ p.Reaches a) ↔ parent.Reaches a :=
      ⟨fun ⟨p, hp, hreach⟩ => Option.some.inj hp ▸ hreach, fun hreach => ⟨parent, rfl, hreach⟩⟩
    have hrest : parent.isSubclassOf a ↔ parent.Reaches a := ih hparent
    rw [isSubclassOf_extending, Bool.or_eq_true, hself _ hc, hrest, ← hstep, Reaches,
      Relation.ReflTransGen.cases_head_iff, eq_comm]

/-- No class occurs twice in a line. -/
theorem Lineage.nodup_line {c : Class} (hc : c ∈ cs) :
    c.line.Nodup ∧ ∀ d ∈ c.line, d ∈ cs ∧ d.id ≤ c.id := by
  induction c with
  | root id name => simp [line, hc]
  | extending id name parent ih =>
    obtain ⟨hnodup, hmem⟩ := ih (h.parents _ hc parent rfl)
    have holder := h.older _ hc parent rfl
    constructor
    · refine List.nodup_cons.mpr ⟨fun hself => ?_, hnodup⟩
      exact absurd (hmem _ hself).2 (Nat.not_le_of_lt holder)
    · intro d hd
      rcases List.mem_cons.mp hd with rfl | hd
      · exact ⟨hc, Nat.le_refl _⟩
      · exact ⟨(hmem d hd).1, Nat.le_trans (hmem d hd).2 (Nat.le_of_lt holder)⟩

/-- There are no more classes in a line than there are. -/
theorem Lineage.length_line_le {c : Class} (hc : c ∈ cs) : c.line.length ≤ cs.length := by
  obtain ⟨hnodup, hmem⟩ := h.nodup_line hc
  exact (hnodup.subperm fun d hd => (hmem d hd).1).length_le

end Order

structure TreeOrder (cs : List Class) : Prop where
  /-- The walk comes to its end within as many rounds as there are classes. -/
  terminates : ∀ c ∈ cs, ∀ a rounds, cs.length ≤ rounds →
    seek a rounds (some c) = some (c.isSubclassOf a)
  refl : ∀ c ∈ cs, c.isSubclassOf c
  trans : ∀ c ∈ cs, ∀ d ∈ cs, ∀ a ∈ cs, c.isSubclassOf d → d.isSubclassOf a → c.isSubclassOf a
  antisymm : ∀ c ∈ cs, ∀ d ∈ cs, c.isSubclassOf d → d.isSubclassOf c → c == d
  comparable : ∀ c ∈ cs, ∀ a ∈ cs, ∀ b ∈ cs, c.isSubclassOf a → c.isSubclassOf b →
    a.isSubclassOf b ∨ b.isSubclassOf a
  reached : ∀ c ∈ cs, ∀ a ∈ cs, c.isSubclassOf a ↔ c.Reaches a
  /-- Whatever names the classes are given, the answers are the same. -/
  nameless : ∀ (c a : Class) (names names' : Nat → String),
    (c.named names).isSubclassOf (a.named names') = c.isSubclassOf a

theorem Lineage.treeOrder {next : Nat} {cs : List Class} (h : Lineage next cs) : TreeOrder cs where
  terminates c hc a rounds hrounds := seek_eq a c rounds (Nat.le_trans (h.length_line_le hc) hrounds)
  refl c hc := (h.isSubclassOf_iff hc hc).mpr .refl
  trans c hc d hd a ha hcd hda := by
    have hreach := ((h.isSubclassOf_iff hc hd).mp hcd).trans ((h.isSubclassOf_iff hd ha).mp hda)
    exact (h.isSubclassOf_iff hc ha).mpr hreach
  antisymm c hc d hd hcd hdc := by
    have hle := (h.id_le hc ((h.isSubclassOf_iff hc hd).mp hcd)).2
    have hge := (h.id_le hd ((h.isSubclassOf_iff hd hc).mp hdc)).2
    exact (beq_iff_id c d).mpr (Nat.le_antisymm hge hle)
  comparable c hc a ha b hb hca hcb := by
    have honce : Relator.RightUnique Extends := fun c p q hp hq => Option.some.inj (hp.symm.trans hq)
    have htotal := Relation.ReflTransGen.total_of_right_unique honce
      ((h.isSubclassOf_iff hc ha).mp hca) ((h.isSubclassOf_iff hc hb).mp hcb)
    exact htotal.imp (h.isSubclassOf_iff ha hb).mpr (h.isSubclassOf_iff hb ha).mpr
  reached c hc a ha := h.isSubclassOf_iff hc ha
  nameless c a names names' := isSubclassOf_named names names' c a

end Class

end RuntimeContracts
