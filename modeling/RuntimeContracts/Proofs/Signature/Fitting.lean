import RuntimeContracts.Proofs.Ascending
import RuntimeContracts.Proofs.Spec.Simulation

/-!
What the checks of a signature mean, for predicates that answer by their argument alone. The arguments
pass when every position fits all of its specs, where a position beyond the arguments fits the specs that
accept an absent one; the result passes when it fits all specs of the result.
-/
namespace RuntimeContracts.Signature

variable (s : Signature) (ask : Callable → Value → Bool)

/-- The predicates that a check against the signature may ask. -/
def Mentions (q : Callable) : Prop :=
  (∃ e ∈ s.params, ∃ t ∈ e.2, q ∈ t.predicates) ∨ ∃ t ∈ s.returns, q ∈ t.predicates

def argsViolation (f : Callable) (args : List Value) : Option Mismatch :=
  Id.run (s.checkArgs (fun t arg => pure (t.fits ask arg)) f args)

def resultViolation (f : Callable) (result : Value) : Option Mismatch :=
  Id.run (s.checkReturn (fun t arg => pure (t.fits ask arg)) f result)

def ArgsFit (args : List Value) : Prop :=
  ∀ position, ∀ t ∈ s.paramSpecs position, t.fits ask args[position.toNat]?

def ResultFits (result : Value) : Prop := ∀ t ∈ s.returns, t.fits ask (some result)

theorem firstRejecting_eq_none_iff (arg : Option Value) (specs : List Spec) :
    Id.run (firstRejecting (fun t arg => pure (t.fits ask arg)) arg specs) = none ↔
      ∀ t ∈ specs, t.fits ask arg := by
  induction specs with
  | nil => simp [firstRejecting]
  | cons t rest ih =>
    cases hfits : t.fits ask arg <;> simp [firstRejecting, hfits, ih]

theorem checkSlots_eq_none_iff (f : Callable) (args : List Value)
    (slots : List (UInt64 × List Spec)) :
    Id.run (checkSlots (fun t arg => pure (t.fits ask arg)) f args slots) = none ↔
      ∀ e ∈ slots, ∀ t ∈ e.2, t.fits ask args[e.1.toNat]? := by
  induction slots with
  | nil => simp [checkSlots]
  | cons e rest ih =>
    obtain ⟨i, specs⟩ := e
    have hslot := firstRejecting_eq_none_iff ask args[i.toNat]? specs
    simp only [checkSlots, Id.run_bind, List.forall_mem_cons, ← hslot]
    cases Id.run (firstRejecting (fun t arg => pure (t.fits ask arg)) args[i.toNat]? specs) with
    | none => simpa using ih
    | some t => simp

/-- What holds of all slots holds at all positions. -/
theorem forall_params_iff (holds : UInt64 → Spec → Prop) :
    (∀ e ∈ s.params, ∀ t ∈ e.2, holds e.1 t) ↔
      ∀ position, ∀ t ∈ s.paramSpecs position, holds position t := by
  have hslot := Ascending.lookup_eq_some_iff_mem (fun _ => UInt64.lt_irrefl _) s.params s.ascends
  constructor
  · intro h position t ht
    unfold paramSpecs at ht
    cases hlookup : s.params.lookup position with
    | none => simp [hlookup] at ht
    | some specs =>
      rw [hlookup, Option.getD_some] at ht
      exact h (position, specs) ((hslot position specs).mp hlookup) t ht
  · rintro h ⟨position, specs⟩ hmem t ht
    apply h position t
    unfold paramSpecs
    rwa [(hslot position specs).mpr hmem]

/-- The check of the arguments finds nothing exactly if they fit. -/
theorem argsViolation_eq_none_iff (f : Callable) (args : List Value) :
    s.argsViolation ask f args = none ↔ s.ArgsFit ask args := by
  unfold argsViolation checkArgs ArgsFit
  rw [checkSlots_eq_none_iff]
  exact s.forall_params_iff fun position t => t.fits ask args[position.toNat]?

theorem resultViolation_eq_none_iff (f : Callable) (result : Value) :
    s.resultViolation ask f result = none ↔ s.ResultFits ask result := by
  unfold resultViolation checkReturn ResultFits
  rw [← firstRejecting_eq_none_iff, Id.run_bind]
  cases Id.run (firstRejecting (fun t arg => pure (t.fits ask arg)) (some result) s.returns) with
  | none => simp
  | some t => simp

end RuntimeContracts.Signature
