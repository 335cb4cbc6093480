import RuntimeContracts.Proofs.Signature.Equality

/-!
Contributions accumulate. However they are put together, one at a time or some after others, every place has
the specs that are contributed to it, in their order, and no others. The positions that are declared end with
the highest one that has a spec. Only the highest position there is can have specs and not be declared,
because the number of positions up to it is too high for a position.
-/
namespace RuntimeContracts

namespace Contribution

def position? : Contribution → Option UInt64
  | param i _ => some i
  | result _ => none

def highest? (ks : List Contribution) : Option Nat :=
  ((ks.filterMap position?).map UInt64.toNat).max?

theorem position?_eq_some_iff (i : UInt64) (k : Contribution) :
    k.position? = some i ↔ ∃ t, k = param i t := by
  cases k <;> simp [position?]

end Contribution

namespace Signature

variable (ks : List Contribution)

/-- The slots are the positions that specs are contributed for. -/
theorem mem_positions_iff (i : UInt64) :
    i ∈ (ofContributions ks).params.map Prod.fst ↔ i ∈ ks.filterMap Contribution.position? := by
  rw [(filled_ofContributions ks).mem_map_fst_params_iff, List.mem_filterMap]
  simp only [Contribution.position?_eq_some_iff]
  constructor
  · intro hne
    obtain ⟨t, ht⟩ := List.exists_mem_of_ne_nil _ hne
    exact ⟨.param i t, ((collects_ofContributions ks).mem_paramSpecs_iff i t).mp ht, t, rfl⟩
  · rintro ⟨-, hk, t, rfl⟩
    exact List.ne_nil_of_mem (((collects_ofContributions ks).mem_paramSpecs_iff i t).mpr hk)

/-- The last slot has the highest position. -/
theorem highest?_eq_getLast? : Contribution.highest? ks =
    (ofContributions ks).params.getLast?.map fun e => e.1.toNat := by
  have hmem (i : UInt64) := mem_positions_iff ks i
  cases hlast : (ofContributions ks).params.getLast? with
  | none =>
    rw [List.getLast?_eq_none_iff] at hlast
    simp only [hlast, List.map_nil, List.not_mem_nil, false_iff] at hmem
    rw [Contribution.highest?, List.eq_nil_iff_forall_not_mem.mpr hmem]
    rfl
  | some e =>
    obtain ⟨before, hslots⟩ := List.getLast?_eq_some_iff.mp hlast
    have hascends : Ascending.Ascends (before ++ [e]) := hslots ▸ (ofContributions ks).ascends
    obtain ⟨-, -, hbelow⟩ := List.pairwise_append.mp hascends
    simp only [hslots, List.map_append, List.map_cons, List.map_nil, List.mem_append,
      List.mem_singleton] at hmem
    refine List.max?_eq_some_iff.mpr ⟨List.mem_map_of_mem ((hmem e.1).mp (Or.inr rfl)), fun n hn => ?_⟩
    obtain ⟨i, hi, rfl⟩ := List.mem_map.mp hn
    rcases (hmem i).mpr hi with hi | rfl
    · obtain ⟨d, hd, rfl⟩ := List.mem_map.mp hi
      exact UInt64.le_iff_toNat_le.mp (UInt64.le_of_lt (hbelow d hd e (List.mem_singleton_self e)))
    · exact Nat.le_refl _

def declaredUpTo : Option Nat → Nat
  | none => 0
  | some highest => min (highest + 1) (UInt64.size - 1)

/-- The number after the highest position is zero again for the last position there is, and only for that one.
-/
theorem toNat_declaredParams :
    (ofContributions ks).declaredParams.toNat = declaredUpTo (Contribution.highest? ks) := by
  rw [highest?_eq_getLast?, declaredParams]
  cases (ofContributions ks).params.getLast? with
  | none => rfl
  | some e =>
    have hnext : (e.1 + 1).toNat = (e.1.toNat + 1) % UInt64.size := UInt64.toNat_add e.1 1
    have hlt : e.1.toNat < UInt64.size := e.1.toNat_lt_size
    have hwraps : e.1 + 1 = 0 ↔ (e.1 + 1).toNat = 0 := UInt64.toNat_inj.symm
    simp only [Option.map_some, declaredUpTo, hwraps]
    by_cases hlast : e.1.toNat + 1 = UInt64.size
    · rw [hlast, Nat.mod_self] at hnext
      rw [if_pos hnext]
      omega
    · rw [Nat.mod_eq_of_lt (by omega)] at hnext
      rw [if_neg (by omega)]
      omega

/-- Positions with specs are declared, except for the highest there is. -/
theorem lt_declaredParams_of_paramSpecs_ne_nil {position : UInt64}
    (h : (ofContributions ks).paramSpecs position ≠ []) :
    position < (ofContributions ks).declaredParams ∨ position.toNat = UInt64.size - 1 := by
  have hslot := ((filled_ofContributions ks).mem_map_fst_params_iff position).mpr h
  have hposition := List.mem_map_of_mem (f := UInt64.toNat) ((mem_positions_iff ks position).mp hslot)
  have hdeclared := toNat_declaredParams ks
  rw [UInt64.lt_iff_toNat_lt, hdeclared]
  cases hhighest : Contribution.highest? ks with
  | none =>
    rw [Contribution.highest?, List.max?_eq_none_iff] at hhighest
    rw [hhighest] at hposition
    cases hposition
  | some highest =>
    have hle := (List.max?_eq_some_iff.mp hhighest).2 _ hposition
    have hlt := position.toNat_lt_size
    simp only [declaredUpTo]
    omega

/-- Nothing that is contributed is lost, and nothing is added. -/
structure Accumulates (ks : List Contribution) : Prop where
  folded : (ks.foldl add empty == ofContributions ks) = true
  /-- One contribution after the other, into one signature that is kept and changed. -/
  added : (Id.run do
    let mut s := empty
    for k in ks do
      s := s.add k
    return s) == ofContributions ks
  extended : ∀ earlier later, ks = earlier ++ later →
    ((ofContributions earlier).extend later == ofContributions ks) = true
  params : ∀ position,
    (ofContributions ks).paramSpecs position = ks.filterMap (Contribution.paramSpec? position)
  results : (ofContributions ks).returns = ks.filterMap Contribution.resultSpec?
  /-- Equal are those that have as many specs at every place, equal one by one. -/
  equal : ∀ ks', (ofContributions ks == ofContributions ks') = true ↔
    (∀ position, List.Forall₂ (fun t u => (t == u) = true)
      (ks.filterMap (Contribution.paramSpec? position)) (ks'.filterMap (Contribution.paramSpec? position))) ∧
    List.Forall₂ (fun t u => (t == u) = true)
      (ks.filterMap Contribution.resultSpec?) (ks'.filterMap Contribution.resultSpec?)
  empty : (ofContributions ks).isEmpty ↔ ks = []
  declared : (ofContributions ks).declaredParams.toNat = declaredUpTo (Contribution.highest? ks)
  unconstrained : ∀ position, (ofContributions ks).declaredParams ≤ position →
    position.toNat ≠ UInt64.size - 1 → (ofContributions ks).paramSpecs position = []
  /-- Of the arguments, a check looks only at those that are declared and at the one at the highest position
  there is. -/
  unchecked : ∀ {m : Type → Type} [Monad m] (fits : Spec → Option Value → m Bool) (f : Callable)
    (args args' : List Value),
    (∀ position : UInt64, position < (ofContributions ks).declaredParams ∨ position.toNat = UInt64.size - 1 →
      args'[position.toNat]? = args[position.toNat]?) →
    (ofContributions ks).checkArgs fits f args' = (ofContributions ks).checkArgs fits f args

theorem contributions_accumulate : Accumulates ks where
  folded := beq_refl _
  added := by
    simp only [List.forIn_pure_yield_eq_foldl]
    exact beq_refl _
  extended earlier later h := by
    have hextend : (ofContributions earlier).extend later = ofContributions ks := by
      rw [h, ofContributions, ofContributions, extend, extend, extend, List.foldl_append]
    rw [hextend]
    exact beq_refl _
  params := (collects_ofContributions ks).params
  results := (collects_ofContributions ks).results
  equal := beq_ofContributions_iff ks
  empty := (collects_ofContributions ks).empty
  declared := toNat_declaredParams ks
  unconstrained position hle hne := by
    by_contra hspecs
    rcases lt_declaredParams_of_paramSpecs_ne_nil ks hspecs with hlt | hlast
    · exact UInt64.not_lt.mpr hle hlt
    · exact hne hlast
  unchecked fits f args args' h := by
    refine checkSlots_congr fits f _ fun e he => ?_
    have hspecs := ((filled_ofContributions ks).mem_map_fst_params_iff e.1).mp (List.mem_map_of_mem he)
    rw [h e.1 (lt_declaredParams_of_paramSpecs_ne_nil ks hspecs)]
    exact ⟨rfl, fun _ _ => rfl⟩

/-- Two specs at the highest position there is, which is not declared. The highest of the others is the last one
that is declared without them. -/
theorem contributions_accumulate_highest :
    let highest : UInt64 := 18446744073709551615
    let ks : List Contribution := [.param highest (.native .string), .result .any,
      .param 3 (.native .number), .param highest .any]
    Accumulates ks ∧ (ofContributions ks).declaredParams = highest ∧
      ((ofContributions ks).paramSpecs highest).map Spec.render = ["string", "Any"] ∧
      (ofContributions (ks.filter fun k => k.position? != some highest)).declaredParams = 4 := by
  intro highest ks
  exact ⟨contributions_accumulate ks, by decide +kernel, by decide +kernel, by decide +kernel⟩

end Signature

end RuntimeContracts
