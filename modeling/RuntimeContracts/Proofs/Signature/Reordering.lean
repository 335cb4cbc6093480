import RuntimeContracts.Proofs.Signature.Equality
import RuntimeContracts.Proofs.Signature.FirstViolation

/-!
Contributions in another order. What is declared and what passes does not depend on the order, nor does the
place that a mismatch is reported at. The order of contributions to one place is kept, however: signatures
are equal only if at every place their specs are, one by one, and of several specs that fail at one place
the first is the one that a mismatch says was expected.
-/
namespace RuntimeContracts

/-- The mismatches are of one callable and at one place, and found the same there. What was expected may
differ. -/
structure Mismatch.SamePlace (e e' : Mismatch) : Prop where
  function : e.function = e'.function
  location : e.location = e'.location
  got : e.got = e'.got

theorem rel_of_eq_none_iff {α : Type} {r : α → α → Prop} {x y : Option α}
    (hnone : x = none ↔ y = none) (hsome : ∀ a b, x = some a → y = some b → r a b) :
    Option.Rel r x y := by
  cases x with
  | none =>
    rw [hnone.mp rfl]
    exact Option.Rel.none
  | some a =>
    cases y with
    | none => cases hnone.mpr rfl
    | some b => exact Option.Rel.some (hsome a b rfl rfl)

namespace Signature

structure SameUpToOrder (s s' : Signature) : Prop where
  params : ∀ position, (s.paramSpecs position).Perm (s'.paramSpecs position)
  positions : s.params.map Prod.fst = s'.params.map Prod.fst
  returns : s.returns.Perm s'.returns

/-- Signatures that have specs at the same positions have the same positions. -/
theorem positions_eq {s s' : Signature} (h : s.Filled) (h' : s'.Filled)
    (hspecs : ∀ position, s.paramSpecs position ≠ [] ↔ s'.paramSpecs position ≠ []) :
    s.params.map Prod.fst = s'.params.map Prod.fst := by
  have hmarks (t : Signature) : Ascending.Ascends (t.params.map fun e => (e.1, ())) :=
    List.pairwise_map.mpr t.ascends
  have hkeys : s.params.map (fun e => (e.1, ())) = s'.params.map fun e => (e.1, ()) := by
    refine Ascending.eq_of_mem_iff UInt64.lt_irrefl (fun _ _ _ => UInt64.lt_trans) (hmarks s) (hmarks s') ?_
    rintro ⟨position, -⟩
    have hmark (t : Signature) : (position, ()) ∈ t.params.map (fun e => (e.1, ())) ↔
        position ∈ t.params.map Prod.fst := by simp
    rw [hmark, hmark, h.mem_map_fst_params_iff, h'.mem_map_fst_params_iff, hspecs]
  have hfst := congrArg (List.map Prod.fst) hkeys
  rwa [List.map_map, List.map_map] at hfst

/-- Signatures with the same specs at every place are the same. -/
theorem eq_of_paramSpecs_eq {s s' : Signature} (h : s.Filled) (h' : s'.Filled)
    (hparams : ∀ position, s.paramSpecs position = s'.paramSpecs position)
    (hreturns : s.returns = s'.returns) : s = s' := by
  have hslots : s.params = s'.params := by
    refine Ascending.eq_of_mem_iff UInt64.lt_irrefl (fun _ _ _ => UInt64.lt_trans) s.ascends s'.ascends ?_
    rintro ⟨position, specs⟩
    rw [h.mem_params_iff, h'.mem_params_iff, hparams]
  obtain ⟨params, returns, ascends⟩ := s
  cases hslots
  cases hreturns
  rfl

section Permuted

variable {ks ks' : List Contribution} (h : ks.Perm ks')

include h

theorem sameUpToOrder_of_perm : (ofContributions ks).SameUpToOrder (ofContributions ks') := by
  have hcollects := collects_ofContributions ks
  have hcollects' := collects_ofContributions ks'
  have hparams (position : UInt64) :
      ((ofContributions ks).paramSpecs position).Perm ((ofContributions ks').paramSpecs position) := by
    rw [hcollects.params, hcollects'.params]
    exact h.filterMap _
  refine ⟨hparams, ?_, ?_⟩
  · refine positions_eq (filled_ofContributions ks) (filled_ofContributions ks') fun position => ?_
    rw [← List.length_pos_iff, ← List.length_pos_iff, (hparams position).length_eq]
  · rw [hcollects.results, hcollects'.results]
    exact h.filterMap _

variable (ask : Callable → Value → Bool) (f : Callable)

omit h in
/-- A rejected position is not below the one that is reported for the same contributions in any order. -/
theorem FirstRejects.not_lt {args : Key} {position position' : UInt64} {t t' : Spec}
    (hfirst : FirstRejects ask ks args position t) (hfirst' : FirstRejects ask ks' args position' t')
    (hmem : .param position t ∈ ks') : ¬ position < position' := by
  intro hlt
  have hfits := hfirst'.lowest position hlt t hmem
  rw [hfirst.rejects] at hfits
  cases hfits

/-- In either order a violation is found at the same place, or none. -/
theorem samePlace_argsViolation (args : Key) : Option.Rel Mismatch.SamePlace
    ((ofContributions ks).argsViolation ask f args)
    ((ofContributions ks').argsViolation ask f args) := by
  refine rel_of_eq_none_iff ?_ fun e e' he he' => ?_
  · simp only [argsViolation_eq_none_iff, argsFit_ofContributions_iff, h.mem_iff]
  · obtain ⟨position, t, hfirst, rfl⟩ := exists_firstRejects ask ks f args he
    obtain ⟨position', t', hfirst', rfl⟩ := exists_firstRejects ask ks' f args he'
    have hle := hfirst.not_lt ask hfirst' (h.mem_iff.mp hfirst.mem)
    have hge := hfirst'.not_lt ask hfirst (h.mem_iff.mpr hfirst'.mem)
    obtain rfl := UInt64.le_antisymm (UInt64.not_lt.mp hge) (UInt64.not_lt.mp hle)
    exact ⟨rfl, rfl, rfl⟩

theorem samePlace_resultViolation (result : Value) : Option.Rel Mismatch.SamePlace
    ((ofContributions ks).resultViolation ask f result)
    ((ofContributions ks').resultViolation ask f result) := by
  refine rel_of_eq_none_iff ?_ fun e e' he he' => ?_
  · simp only [resultViolation_eq_none_iff, ResultFits, (sameUpToOrder_of_perm h).returns.mem_iff]
  · obtain ⟨t, -, -, rfl⟩ := exists_rejecting_of_resultViolation ask f _ he
    obtain ⟨t', -, -, rfl⟩ := exists_rejecting_of_resultViolation ask f _ he'
    exact ⟨rfl, rfl, rfl⟩

end Permuted

end Signature

section Checking

variable {σ γ : Type} (code : Code σ) (ks ks' : List Contribution) (ask : Callable → Value → Bool)
  (view : World σ → γ)

/-- What the contributions come to in one order and in another. -/
structure Code.ChecksInEitherOrder : Prop where
  specs : (Signature.ofContributions ks).SameUpToOrder (.ofContributions ks')
  equal : (Signature.ofContributions ks == Signature.ofContributions ks') = true ↔
    (∀ position, Spec.beqMembers (ks.filterMap (Contribution.paramSpec? position))
      (ks'.filterMap (Contribution.paramSpec? position)) = true) ∧
    Spec.beqMembers (ks.filterMap Contribution.resultSpec?)
      (ks'.filterMap Contribution.resultSpec?) = true
  /-- An order that keeps the order at every place makes no difference at all. -/
  same : (∀ position, ks.filterMap (Contribution.paramSpec? position) =
      ks'.filterMap (Contribution.paramSpec? position)) →
    ks.filterMap Contribution.resultSpec? = ks'.filterMap Contribution.resultSpec? →
      Signature.ofContributions ks = .ofContributions ks'
  /-- The checks come to an end, with mismatches at the same place if with any. -/
  arguments : ∀ f args, ∃ answer answer', Option.Rel Mismatch.SamePlace answer answer' ∧
    Machine.Settled view (fun depth => code.argumentCheck ks f depth args) answer ∧
    Machine.Settled view (fun depth => code.argumentCheck ks' f depth args) answer'
  result : ∀ f result, ∃ answer answer', Option.Rel Mismatch.SamePlace answer answer' ∧
    Machine.Settled view (fun depth => code.resultCheck ks f depth result) answer ∧
    Machine.Settled view (fun depth => code.resultCheck ks' f depth result) answer'

/-- With predicates that decide by their argument alone, the order of the contributions changes no more
than which of several specs at one place comes first. -/
theorem contributions_check_in_any_order (h : ks.Perm ks')
    (hask : code.Decides (.ofContributions ks) ask view) :
    code.ChecksInEitherOrder ks ks' view := by
  have hask' : code.Decides (.ofContributions ks') ask view := by
    intro q hq
    obtain ⟨k, hk, hpredicate⟩ := (Signature.mentions_ofContributions_iff ks' q).mp hq
    exact hask q ((Signature.mentions_ofContributions_iff ks q).mpr ⟨k, h.mem_iff.mpr hk, hpredicate⟩)
  constructor
  · exact Signature.sameUpToOrder_of_perm h
  · rw [Signature.beq_ofContributions_iff]
    simp only [Spec.beqMembers_iff_forall₂]
  · intro hparams hresults
    refine Signature.eq_of_paramSpecs_eq (Signature.filled_ofContributions ks)
      (Signature.filled_ofContributions ks') (fun position => ?_) ?_
    · simpa only [(Signature.collects_ofContributions _).params] using hparams position
    · simpa only [(Signature.collects_ofContributions _).results] using hresults
  · intro f args
    exact ⟨_, _, Signature.samePlace_argsViolation h ask f args, settled_argumentCheck f args hask,
      settled_argumentCheck f args hask'⟩
  · intro f result
    exact ⟨_, _, Signature.samePlace_resultViolation h ask f result, settled_resultCheck f hask result,
      settled_resultCheck f hask' result⟩

end Checking

/-- A predicate and two specs at one place, moved past each other and past a spec of the result. -/
theorem contributions_check_in_any_order_swapped :
    let q : Callable := ⟨"echo", ["x"], 0⟩
    let code : Code Unit := ⟨#[.program fun args => pure (.ok (args.headD .undefined))], #[]⟩
    let ks : List Contribution := [.param 2 (.native .number), .param 2 (.predicate q), .result .any]
    let ks' : List Contribution := [.param 2 (.predicate q), .result .any, .param 2 (.native .number)]
    ks.Perm ks' ∧ code.Decides (.ofContributions ks) (fun _ v => v.same v) (fun _ => ()) ∧
      code.ChecksInEitherOrder ks ks' (fun _ => ()) := by
  intro q code ks ks'
  have hperm : ks.Perm ks' :=
    (List.Perm.swap _ _ _).trans ((List.Perm.swap _ _ _).cons _)
  have hask : code.Decides (.ofContributions ks) (fun _ v => v.same v) (fun _ => ()) := by
    refine Code.decides_of_done (fun _ v => .ok v) fun p hp => ?_
    obtain rfl : p = q := by
      simpa [Signature.mentions_ofContributions_iff, Contribution.spec, Spec.predicates, ks] using hp
    exact ⟨_, rfl, fun _ => rfl⟩
  exact ⟨hperm, hask, contributions_check_in_any_order code ks ks' _ _ hperm hask⟩

/-- Two specs of one parameter, and two of the result, make for another signature and other mismatches when
they change places. -/
theorem contributions_to_one_place_do_not_commute :
    let f : Callable := ⟨"area", ["a"], 0⟩
    let code : Code Unit := ⟨#[], #[]⟩
    let ks : List Contribution := [.param 0 (.native .number), .param 0 (.native .string),
      .result (.native .number), .result (.native .string)]
    let ks' : List Contribution := [.param 0 (.native .string), .param 0 (.native .number),
      .result (.native .string), .result (.native .number)]
    ks.Perm ks' ∧ (Signature.ofContributions ks == .ofContributions ks') = false ∧
      (code.argumentCheck ks f 0 [.null] (World.start ())).map Prod.fst =
        some (some ⟨"area", .parameter 0 (some "a"), "number", "null"⟩) ∧
      (code.argumentCheck ks' f 0 [.null] (World.start ())).map Prod.fst =
        some (some ⟨"area", .parameter 0 (some "a"), "string", "null"⟩) ∧
      (code.resultCheck ks f 0 .null (World.start ())).map Prod.fst =
        some (some ⟨"area", .result, "number", "null"⟩) ∧
      (code.resultCheck ks' f 0 .null (World.start ())).map Prod.fst =
        some (some ⟨"area", .result, "string", "null"⟩) := by
  intro f code ks ks'
  have hperm : ks.Perm ks' := (List.Perm.swap _ _ _).trans (((List.Perm.swap _ _ _).cons _).cons _)
  refine ⟨hperm, ?_, ?_, ?_, ?_, ?_⟩ <;> decide +kernel

end RuntimeContracts
