import RuntimeContracts.Proofs.Machine.World
import RuntimeContracts.Proofs.Signature.Fitting

/-!
Checks in a run. A computation that answers by its argument alone, as a pure predicate does, has at most
one result and leaves a chosen view of the world as it was. Matching and the checks of a signature are of
this kind if the predicates in them are. A validated call is taken apart into the ways that it can go.
-/
namespace RuntimeContracts.Machine

variable {σ α γ : Type}

/-- If the computation has a result, then it is this one, and the view of the world stays. -/
def Answers (view : World σ → γ) (act : Machine σ α) (a : α) : Prop :=
  ∀ w b w', act w = some (b, w') → b = a ∧ view w' = view w

/-- In the strictest mode a violation stops the call as it is. -/
theorem checkpoint_enforce (check : Machine σ (Option Mismatch)) :
    checkpoint .enforce check = check := by
  have hsettle : (settle .enforce : Option Mismatch → Machine σ (Option Mismatch)) = pure := by
    funext violation
    cases violation <;> rfl
  change check >>= settle .enforce = check
  rw [hsettle, bind_pure]

section Pure

variable (view : World σ → γ)

theorem answers_pure (a : α) : Answers view (pure a : Machine σ α) a := by
  intro w b w' hrun
  obtain ⟨rfl, rfl⟩ := Prod.mk.inj (Option.some.inj hrun)
  exact ⟨rfl, rfl⟩

def answering : Simulation (Machine σ) Id where
  Rel act a := Answers view act a
  rel_pure := answers_pure view
  rel_bind := by
    intro α β x a k l hx hk w b w' hrun
    obtain ⟨a', w₁, hx', hk'⟩ := bind_eq_some x k w w' b hrun
    obtain ⟨rfl, hview⟩ := hx w a' w₁ hx'
    obtain ⟨hb, hview'⟩ := hk a' w₁ b w' hk'
    exact ⟨hb, hview'.trans hview⟩

variable {view} {call : Caller σ} {ask : Callable → Value → Bool}

/-- A match is as pure as the predicates in it. -/
theorem answers_fits (s : Spec) (arg : Option Value)
    (h : ∀ q ∈ s.predicates, ∀ v, Answers view (passes call q v) (ask q v)) :
    Answers view (fits call s arg) (s.fits ask arg) :=
  (answering view).rel_fitsM (fun q v => pure (ask q v)) s arg h

variable (s : Signature) (h : ∀ q, s.Mentions q → ∀ v, Answers view (passes call q v) (ask q v))

include h

theorem answers_checkArgs (f : Callable) (args : List Value) :
    Answers view (s.checkArgs (fits call) f args) (s.argsViolation ask f args) :=
  (answering view).rel_checkArgs (fun t arg => pure (t.fits ask arg)) s f args
    fun e he t ht arg => answers_fits t arg fun q hq => h q (Or.inl ⟨e, he, t, ht, hq⟩)

theorem answers_checkReturn (f : Callable) (result : Value) :
    Answers view (s.checkReturn (fits call) f result) (s.resultViolation ask f result) :=
  (answering view).rel_checkReturn (fun t arg => pure (t.fits ask arg)) s f result
    fun t ht => answers_fits t (some result) fun q hq => h q (Or.inr ⟨t, ht, hq⟩)

theorem answers_enforceArgs (f : Callable) (args : List Value) :
    Answers view (checkpoint .enforce (s.checkArgs (fits call) f args)) (s.argsViolation ask f args) := by
  rw [checkpoint_enforce]
  exact answers_checkArgs s h f args

theorem answers_enforceReturn (f : Callable) (result : Value) :
    Answers view (checkpoint .enforce (s.checkReturn (fits call) f result))
      (s.resultViolation ask f result) := by
  rw [checkpoint_enforce]
  exact answers_checkReturn s h f result

end Pure

inductive Validating (call : Caller σ) (v : Validated) (args : List Value) (w : World σ) :
    Outcome → World σ → Prop
  | rejected {e : Mismatch} {w₁ : World σ}
      (hargs : checkpoint v.mode (v.signature.checkArgs (fits call) v.inner args) w =
        some (some e, w₁)) : Validating call v args w (.error (.mismatch e)) w₁
  | failed {e : CallError} {w₁ w₂ : World σ}
      (hargs : checkpoint v.mode (v.signature.checkArgs (fits call) v.inner args) w = some (none, w₁))
      (hcall : call v.inner args w₁ = some (.error e, w₂)) : Validating call v args w (.error e) w₂
  | refused {result : Value} {e : Mismatch} {w₁ w₂ w₃ : World σ}
      (hargs : checkpoint v.mode (v.signature.checkArgs (fits call) v.inner args) w = some (none, w₁))
      (hcall : call v.inner args w₁ = some (.ok result, w₂))
      (hreturn : checkpoint v.mode (v.signature.checkReturn (fits call) v.inner result) w₂ =
        some (some e, w₃)) : Validating call v args w (.error (.mismatch e)) w₃
  | accepted {result : Value} {w₁ w₂ w₃ : World σ}
      (hargs : checkpoint v.mode (v.signature.checkArgs (fits call) v.inner args) w = some (none, w₁))
      (hcall : call v.inner args w₁ = some (.ok result, w₂))
      (hreturn : checkpoint v.mode (v.signature.checkReturn (fits call) v.inner result) w₂ =
        some (none, w₃)) : Validating call v args w (.ok result) w₃

/-- Every validated call with a result goes one of these ways. -/
theorem validating_of_callValidated (call : Caller σ) (v : Validated) (args : List Value)
    (w w' : World σ) (outcome : Outcome)
    (hrun : callValidated call v args w = some (outcome, w')) :
    ∃ w₁, Validating call v args (w.withActive (v.inner.name :: w.active)) outcome w₁ ∧
      w' = w₁.withActive w.active := by
  rw [callValidated_eq, within_apply] at hrun
  obtain ⟨⟨answer, w₁⟩, hinside, hr⟩ := Option.map_eq_some_iff.mp hrun
  obtain ⟨rfl, rfl⟩ := Prod.mk.inj hr
  refine ⟨w₁, ?_, rfl⟩
  obtain ⟨violation, w₂, hargs, hrest⟩ := bind_eq_some _ _ _ _ _ hinside
  cases violation with
  | some e =>
    obtain ⟨rfl, rfl⟩ := Prod.mk.inj (Option.some.inj hrest)
    exact Validating.rejected hargs
  | none =>
    obtain ⟨reply, w₃, hcall, hrest⟩ := bind_eq_some _ _ _ _ _ hrest
    cases reply with
    | error e =>
      obtain ⟨rfl, rfl⟩ := Prod.mk.inj (Option.some.inj hrest)
      exact Validating.failed hargs hcall
    | ok result =>
      obtain ⟨violation, w₄, hreturn, hrest⟩ := bind_eq_some _ _ _ _ _ hrest
      cases violation with
      | some e =>
        obtain ⟨rfl, rfl⟩ := Prod.mk.inj (Option.some.inj hrest)
        exact Validating.refused hargs hcall hreturn
      | none =>
        obtain ⟨rfl, rfl⟩ := Prod.mk.inj (Option.some.inj hrest)
        exact Validating.accepted hargs hcall hreturn

end RuntimeContracts.Machine
