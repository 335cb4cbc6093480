import RuntimeContracts.Proofs.Signature.Positions
import RuntimeContracts.Proofs.Spec.Shape

/-!
Checks look at shapes, too, and so do the mismatches that they report. A signature whose predicates cannot
tell a value from its shape has the same answer for exactly equal arguments, and for exactly equal results.
-/
namespace RuntimeContracts.Signature

section Checking

variable {m : Type → Type} [Monad m] {known : Nat → Class} {ask : Callable → Value → m Bool}

theorem fitsM_shape (t : Spec) (arg : Option Value)
    (ht : ∀ q ∈ t.predicates, Spec.Indifferent known ask q) (harg : ∀ v ∈ arg, v.Declared known) :
    t.fitsM ask (arg.map (Value.shape known)) = t.fitsM ask arg := by
  cases arg with
  | none => rfl
  | some v => exact Spec.matchesM_shape known ask t v ht (harg v rfl)

theorem describeArg_shape (arg : Option Value) (harg : ∀ v ∈ arg, v.Declared known) :
    describeArg (arg.map (Value.shape known)) = describeArg arg := by
  cases arg with
  | none => rfl
  | some v => exact Value.describe_shape (harg v rfl)

variable (s : Signature) (hs : ∀ q, s.Mentions q → Spec.Indifferent known ask q) (f : Callable)

include hs

theorem checkArgs_shape (args : List Value) (hargs : ∀ v ∈ args, v.Declared known) :
    s.checkArgs (fun t arg => t.fitsM ask arg) f (args.map (Value.shape known)) =
      s.checkArgs (fun t arg => t.fitsM ask arg) f args := by
  refine checkSlots_congr _ f s.params fun e he => ?_
  have harg (v : Value) (hv : v ∈ args[e.1.toNat]?) : v.Declared known :=
    hargs v (List.mem_of_getElem? hv)
  rw [List.getElem?_map]
  refine ⟨describeArg_shape _ harg, fun t ht => fitsM_shape t _ (fun q hq => ?_) harg⟩
  exact hs q (Or.inl ⟨e, he, t, ht, hq⟩)

theorem checkReturn_shape {result : Value} (hresult : result.Declared known) :
    s.checkReturn (fun t arg => t.fitsM ask arg) f (result.shape known) =
      s.checkReturn (fun t arg => t.fitsM ask arg) f result := by
  have hfirst : firstRejecting (fun t arg => t.fitsM ask arg) (some (result.shape known)) s.returns =
      firstRejecting (fun t arg => t.fitsM ask arg) (some result) s.returns := by
    refine firstRejecting_congr _ s.returns fun t ht => ?_
    exact Spec.matchesM_shape known ask t result (fun q hq => hs q (Or.inr ⟨t, ht, hq⟩)) hresult
  simp only [checkReturn, hfirst, Value.describe_shape hresult]

end Checking

section Violating

variable {known : Nat → Class} {ask : Callable → Value → Bool} (s : Signature)
  (hs : ∀ q, s.Mentions q → ∀ v : Value, v.Declared known → ask q (v.shape known) = ask q v)
  (f : Callable)

include hs

theorem argsViolation_eq_of_beqItems {args args' : List Value} (hargs : ∀ v ∈ args, v.Declared known)
    (hargs' : ∀ v ∈ args', v.Declared known) (h : Value.beqItems args args' = true) :
    s.argsViolation ask f args = s.argsViolation ask f args' := by
  have hshape (args : List Value) (hargs : ∀ v ∈ args, v.Declared known) :
      s.argsViolation ask f (args.map (Value.shape known)) = s.argsViolation ask f args :=
    checkArgs_shape (m := Id) s hs f args hargs
  rw [← hshape args hargs, ← hshape args' hargs', Value.map_shape_eq_of_beqItems known h]

theorem resultViolation_eq_of_beq {v v' : Value} (hv : v.Declared known) (hv' : v'.Declared known)
    (h : Value.beq v v' = true) : s.resultViolation ask f v = s.resultViolation ask f v' := by
  have hshape (v : Value) (hv : v.Declared known) :
      s.resultViolation ask f (v.shape known) = s.resultViolation ask f v :=
    checkReturn_shape (m := Id) s hs f hv
  rw [← hshape v hv, ← hshape v' hv', Value.shape_eq_of_beq known h]

end Violating

end RuntimeContracts.Signature
