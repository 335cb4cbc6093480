import RuntimeContracts.Proofs.Ascending
import RuntimeContracts.Signature

/-!
What a signature collects. Its specs at every position, and those of the result, are the contributed ones
in the order of contribution, and it is empty only if there are none.
-/
namespace RuntimeContracts

namespace Contribution

def spec : Contribution → Spec
  | param _ s => s
  | result s => s

def paramSpec? (position : UInt64) : Contribution → Option Spec
  | param i s => if i = position then some s else none
  | result _ => none

def resultSpec? : Contribution → Option Spec
  | param _ _ => none
  | result s => some s

theorem paramSpec?_eq_some_iff (position : UInt64) (k : Contribution) (t : Spec) :
    k.paramSpec? position = some t ↔ k = param position t := by
  cases k <;> simp [paramSpec?]

theorem resultSpec?_eq_some_iff (k : Contribution) (t : Spec) :
    k.resultSpec? = some t ↔ k = result t := by
  cases k <;> simp [resultSpec?]

end Contribution

namespace Signature

variable (s : Signature) (k : Contribution) (ks : List Contribution) (position : UInt64)

private theorem eq_of_not_lt (a b : UInt64) (hab : ¬ a < b) (hba : ¬ b < a) : a = b :=
  UInt64.le_antisymm (UInt64.not_lt.mp hba) (UInt64.not_lt.mp hab)

theorem lookup_add_self (spec : Spec) : (s.add (.param position spec)).params.lookup position =
    some (s.paramSpecs position ++ [spec]) :=
  Ascending.lookup_alter_self UInt64.lt_irrefl (fun _ _ _ => UInt64.lt_trans) eq_of_not_lt position
    (fun specs => specs.getD [] ++ [spec]) s.params s.ascends

theorem lookup_add_of_ne (i : UInt64) (spec : Spec) (h : i ≠ position) :
    (s.add (.param i spec)).params.lookup position = s.params.lookup position :=
  Ascending.lookup_alter_of_ne eq_of_not_lt position i (fun specs => specs.getD [] ++ [spec]) s.params
    h.symm

theorem paramSpecs_add :
    (s.add k).paramSpecs position = s.paramSpecs position ++ (k.paramSpec? position).toList := by
  cases k with
  | result spec => exact (List.append_nil _).symm
  | param i spec =>
    by_cases hi : i = position
    · subst hi
      simp only [Contribution.paramSpec?, if_true, paramSpecs, lookup_add_self]
      rfl
    · simp only [Contribution.paramSpec?, if_neg hi, paramSpecs, lookup_add_of_ne s position i spec hi]
      exact (List.append_nil _).symm

theorem returns_add : (s.add k).returns = s.returns ++ k.resultSpec?.toList := by
  cases k with
  | param i spec => exact (List.append_nil _).symm
  | result spec => rfl

theorem isEmpty_add : (s.add k).isEmpty = false := by
  cases k with
  | result spec => simp [add, isEmpty]
  | param i spec =>
    have hsome : Ascending.alter i (fun specs => specs.getD [] ++ [spec]) s.params ≠ [] := by
      unfold Ascending.alter
      split
      · exact List.cons_ne_nil _ _
      · split
        · exact List.cons_ne_nil _ _
        · split <;> exact List.cons_ne_nil _ _
    simp [add, isEmpty, hsome]

theorem paramSpecs_extend : (s.extend ks).paramSpecs position =
    s.paramSpecs position ++ ks.filterMap (Contribution.paramSpec? position) := by
  induction ks generalizing s with
  | nil => exact (List.append_nil _).symm
  | cons k rest ih =>
    have hrest := ih (s.add k)
    rw [paramSpecs_add, List.append_assoc] at hrest
    refine hrest.trans ?_
    rw [List.filterMap_cons]
    cases k.paramSpec? position <;> rfl

theorem returns_extend : (s.extend ks).returns =
    s.returns ++ ks.filterMap Contribution.resultSpec? := by
  induction ks generalizing s with
  | nil => exact (List.append_nil _).symm
  | cons k rest ih =>
    have hrest := ih (s.add k)
    rw [returns_add, List.append_assoc] at hrest
    refine hrest.trans ?_
    rw [List.filterMap_cons]
    cases k.resultSpec? <;> rfl

theorem isEmpty_extend : (s.extend ks).isEmpty = (s.isEmpty && ks.isEmpty) := by
  induction ks generalizing s with
  | nil => exact (Bool.and_true _).symm
  | cons k rest ih =>
    have hrest := ih (s.add k)
    rw [isEmpty_add, Bool.false_and] at hrest
    exact hrest.trans (Bool.and_false _).symm

/-- The signature has the contributed specs and no others, at each place in their order. -/
structure Collects (s : Signature) (ks : List Contribution) : Prop where
  params : ∀ position, s.paramSpecs position = ks.filterMap (Contribution.paramSpec? position)
  results : s.returns = ks.filterMap Contribution.resultSpec?
  empty : s.isEmpty ↔ ks = []

variable {s ks} in
theorem Collects.mem_paramSpecs_iff (h : s.Collects ks) (t : Spec) :
    t ∈ s.paramSpecs position ↔ .param position t ∈ ks := by
  simp [h.params, List.mem_filterMap, Contribution.paramSpec?_eq_some_iff]

variable {s ks} in
theorem Collects.mem_returns_iff (h : s.Collects ks) (t : Spec) :
    t ∈ s.returns ↔ .result t ∈ ks := by
  simp [h.results, List.mem_filterMap, Contribution.resultSpec?_eq_some_iff]

/-- To collect contributions loses none and makes up none. -/
theorem collects_ofContributions : (ofContributions ks).Collects ks where
  params := paramSpecs_extend empty ks
  results := returns_extend empty ks
  empty := by
    rw [ofContributions, isEmpty_extend]
    exact List.isEmpty_iff

end Signature

end RuntimeContracts
