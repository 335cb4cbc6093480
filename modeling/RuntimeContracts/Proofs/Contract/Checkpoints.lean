import RuntimeContracts.Proofs.Machine.Depth
import RuntimeContracts.Proofs.Machine.InProgress

/-!
What a validated call comes to in each of the modes. A violation stops the call or is ignored, and if it
is ignored it may be reported. If the predicates decide by their argument alone, the call ends in one of
two ways: its arguments stop it, or it asks its function, once, in a world that is as before, and ends
with what the function answers or with a violation of the result.
-/
namespace RuntimeContracts

namespace Mode

def stops (mode : Mode) (violation : Option Mismatch) : Option Mismatch :=
  if mode.raises then violation else none

def ignores (mode : Mode) (violations : List Mismatch) : List Mismatch :=
  if mode.checks && !mode.raises then violations else []

theorem ignores_append (mode : Mode) (violations violations' : List Mismatch) :
    mode.ignores (violations ++ violations') = mode.ignores violations ++ mode.ignores violations' := by
  cases mode <;> rfl

end Mode

namespace Signature

variable (s : Signature) (ask : Callable → Value → Bool) (f : Callable)

def outcomeViolation : Outcome → Option Mismatch
  | .ok v => s.resultViolation ask f v
  | .error _ => none

def violations (args : Key) (outcome : Outcome) : List Mismatch :=
  (s.argsViolation ask f args).toList ++ (s.outcomeViolation ask f outcome).toList

/-- What a call whose function has answered comes to. -/
def released (mode : Mode) (outcome : Outcome) : Outcome :=
  match mode.stops (s.outcomeViolation ask f outcome) with
  | some e => .error (.mismatch e)
  | none => outcome

theorem released_enforce {v : Value} {e : Mismatch} (hviolation : s.resultViolation ask f v = some e) :
    s.released ask f .enforce (.ok v) = .error (.mismatch e) := by
  have hstops : Mode.enforce.stops (s.outcomeViolation ask f (.ok v)) = some e := hviolation
  rw [released, hstops]

end Signature

/-- The view of the world has nothing of the calls in progress and of ignored violations. -/
structure World.Overlooks {σ γ : Type} (view : World σ → γ) : Prop where
  calls : ∀ w names, view (w.withActive names) = view w
  reports : ∀ (w : World σ) e, view (w.record (.violationIgnored e)) = view w

namespace Machine

variable {σ γ : Type}

def release (call : Caller σ) (v : Validated) : Outcome → Machine σ Outcome
  | .error e => pure (.error e)
  | .ok result => do
    match ← checkpoint v.mode (v.signature.checkReturn (fits call) v.inner result) with
    | some e => pure (.error (.mismatch e))
    | none => pure (.ok result)

def proceed (call : Caller σ) (v : Validated) (args : Key) : Option Mismatch → Machine σ Outcome
  | some e => pure (.error (.mismatch e))
  | none => call v.inner args >>= release call v

/-- A validated call checks its arguments and proceeds by what this has found. -/
theorem callValidated_eq_proceed (call : Caller σ) (v : Validated) (args : Key) :
    callValidated call v args = within v.inner.name
      (checkpoint v.mode (v.signature.checkArgs (fits call) v.inner args) >>= proceed call v args) :=
  callValidated_eq call args v

/-- Without checks there is the call of the function and nothing else. -/
theorem callValidated_off (call : Caller σ) (f : Callable) (s : Signature) (args : Key) :
    callValidated call ⟨f, s, .off⟩ args = within f.name (call f args) := by
  have hrelease : release call ⟨f, s, .off⟩ = pure := by
    funext outcome
    cases outcome <;> rfl
  have hproceed : proceed call ⟨f, s, .off⟩ args none = call f args := by
    rw [proceed, hrelease, bind_pure]
  rw [callValidated_eq_proceed]
  exact congrArg (within f.name) hproceed

/-- Without specs it makes no difference whether there are checks. -/
theorem callValidated_of_isEmpty (call : Caller σ) (f : Callable) (s : Signature) (mode : Mode)
    (args : Key) (hempty : s.isEmpty) :
    callValidated call ⟨f, s, mode⟩ args = within f.name (call f args) := by
  obtain ⟨params, returns, ascends⟩ := s
  obtain ⟨hparams, hreturns⟩ : params = [] ∧ returns = [] := by simpa [Signature.isEmpty] using hempty
  subst hparams hreturns
  have hpass : checkpoint mode (pure none : Machine σ (Option Mismatch)) = pure none := by
    cases mode <;> rfl
  have hargs : checkpoint mode (Signature.checkArgs (fits call) ⟨[], [], ascends⟩ f args) = pure none :=
    hpass
  have hreturn (result : Value) :
      checkpoint mode (Signature.checkReturn (fits call) ⟨[], [], ascends⟩ f result) = pure none := hpass
  have hrelease : release call ⟨f, ⟨[], [], ascends⟩, mode⟩ = pure := by
    funext outcome
    cases outcome with
    | error e => rfl
    | ok result =>
      rw [release, hreturn]
      rfl
  rw [callValidated_eq_proceed, hargs, pure_bind, proceed, hrelease, bind_pure]

section Ending

variable {code : Code σ} {view : World σ → γ} (hview : World.Overlooks view)

include hview

/-- A checkpoint ends with the violation that stops the call, if any, and reports the one it ignores. -/
theorem ends_checkpoint (mode : Mode) {act : Nat → Machine σ (Option Mismatch)}
    {violation : Option Mismatch} (hact : Settled view act violation)
    (hinward : ∀ depth, Inward True (act depth)) (w : World σ) :
    ∃ w', Ends (fun depth => checkpoint mode (act depth)) w (mode.stops violation) w' ∧
      view w' = view w ∧ w'.active = w.active ∧
      w'.ignored w.active = w.ignored w.active ++ mode.ignores violation.toList := by
  obtain ⟨w₁, hends, hsame⟩ := hact w
  obtain ⟨enough, hruns⟩ := hends
  have hrun := hruns enough (Nat.le_refl enough)
  have hactive := (hinward enough w violation w₁ hrun).1
  have hignored := (hinward enough).ignored hrun
  have hchecked {x : Option Mismatch → Machine σ (Option Mismatch)} {r : Option Mismatch}
      {w' : World σ} (hx : x violation w₁ = some (r, w')) : Ends (fun depth => act depth >>= x) w r w' :=
    Ends.bind ⟨enough, hruns⟩ (ends_of_eq hx)
  cases mode with
  | off => exact ⟨w, ends_of_eq rfl, rfl, rfl, (List.append_nil _).symm⟩
  | enforce =>
    refine ⟨w₁, hchecked ?_, hsame, hactive, hignored.trans (List.append_nil _).symm⟩
    cases violation <;> rfl
  | warn =>
    cases violation with
    | none => exact ⟨w₁, hchecked rfl, hsame, hactive, hignored.trans (List.append_nil _).symm⟩
    | some e =>
      refine ⟨w₁.record (.violationIgnored e), hchecked rfl, (hview.reports w₁ e).trans hsame, hactive, ?_⟩
      rw [← hactive, World.ignored_record, hactive, hignored]
      rfl

variable {s : Signature} {ask : Callable → Value → Bool} (hask : code.Decides s ask view)
  (f : Callable) (mode : Mode)

include hask

/-- The check of the arguments comes to an end, in a world that looks the same. -/
theorem ends_checkArgs (args : Key) (w : World σ) :
    ∃ w', Ends (fun depth => checkpoint mode (s.checkArgs (fits (call code depth)) f args)) w
        (mode.stops (s.argsViolation ask f args)) w' ∧
      view w' = view w ∧ w'.active = w.active ∧ w'.ignored w.active =
        w.ignored w.active ++ mode.ignores (s.argsViolation ask f args).toList :=
  ends_checkpoint hview mode (settled_checkArgs hask f args)
    (fun depth => inwardness.rel_checkArgs (inwardness.rel_call_self code depth) s f args) w

/-- The result is released, or stopped, in a world that is as before. -/
theorem ends_release (outcome : Outcome) (w : World σ) :
    ∃ w', Ends (fun depth => release (call code depth) ⟨f, s, mode⟩ outcome) w
        (s.released ask f mode outcome) w' ∧ view w' = view w ∧
      w'.ignored w.active =
        w.ignored w.active ++ mode.ignores (s.outcomeViolation ask f outcome).toList := by
  cases outcome with
  | error e => cases mode <;> exact ⟨w, ends_of_eq rfl, rfl, (List.append_nil _).symm⟩
  | ok result =>
    have hinward (depth : Nat) : Inward True (s.checkReturn (fits (call code depth)) f result) :=
      inwardness.rel_checkReturn (inwardness.rel_call_self code depth) s f result
    obtain ⟨w', hends, hsame, -, hignored⟩ :=
      ends_checkpoint hview mode (settled_checkReturn hask f result) hinward w
    refine ⟨w', ?_, hsame, hignored⟩
    unfold Signature.released Signature.outcomeViolation
    cases hstops : mode.stops (s.resultViolation ask f result) with
    | none =>
      rw [hstops] at hends
      exact hends.bind (ends_of_eq rfl)
    | some e =>
      rw [hstops] at hends
      exact hends.bind (ends_of_eq rfl)

/-- Arguments that are stopped make an end of the call, and the function is not asked. -/
theorem ends_stopped (args : Key) (w : World σ) (e : Mismatch)
    (hstops : mode.stops (s.argsViolation ask f args) = some e) :
    ∃ w', Ends (fun depth => callValidated (call code depth) ⟨f, s, mode⟩ args) w
        (.error (.mismatch e)) w' ∧ view w' = view w ∧
      w'.ignored (f.name :: w.active) = w.ignored (f.name :: w.active) ++
        mode.ignores (s.argsViolation ask f args).toList := by
  obtain ⟨w', hends, hsame, -, hignored⟩ :=
    ends_checkArgs hview hask f mode args (w.withActive (f.name :: w.active))
  rw [hstops] at hends
  refine ⟨w'.withActive w.active, ?_, ?_, hignored⟩
  · simp only [callValidated_eq_proceed]
    exact (hends.bind (k := fun stop depth => proceed (call code depth) ⟨f, s, mode⟩ args stop)
      (ends_of_eq rfl)).within f.name
  · rw [hview.calls, hsame, hview.calls]

/-- If the arguments do not stop it, the call asks the function, in a world that is as before, and ends
if the function answers. -/
theorem exists_asked (args : Key) (w : World σ)
    (hstops : mode.stops (s.argsViolation ask f args) = none) :
    ∃ w₁, view w₁ = view w ∧
      (∀ outcome w₂, Ends (fun depth => call code depth f args) w₁ outcome w₂ →
        ∃ w', Ends (fun depth => callValidated (call code depth) ⟨f, s, mode⟩ args) w
            (s.released ask f mode outcome) w' ∧ view w' = view w₂ ∧
          w'.ignored (f.name :: w.active) = w.ignored (f.name :: w.active) ++
            mode.ignores (s.violations ask f args outcome)) ∧
      ((∀ depth, call code depth f args w₁ = none) → ∃ enough, ∀ depth, enough ≤ depth →
        callValidated (call code depth) ⟨f, s, mode⟩ args w = none) := by
  obtain ⟨w₁, hends, hsame, hactive, hignored⟩ :=
    ends_checkArgs hview hask f mode args (w.withActive (f.name :: w.active))
  rw [hstops] at hends
  refine ⟨w₁, ?_, ?_, ?_⟩
  · rw [hsame, hview.calls]
  · intro outcome w₂ hanswer
    obtain ⟨w₃, hreleased, hafter, hignored'⟩ := ends_release hview hask f mode outcome w₂
    obtain ⟨depth, hcall⟩ := hanswer
    have hinward := inwardness.rel_call_self code depth f args
    have hcalled := hcall depth (Nat.le_refl depth)
    have hactive₂ : w₂.active = f.name :: w.active := (hinward w₁ outcome w₂ hcalled).1.trans hactive
    have hbetween : w₂.ignored (f.name :: w.active) = w₁.ignored (f.name :: w.active) := by
      have hkept := Inward.ignored hinward hcalled
      rwa [hactive] at hkept
    refine ⟨w₃.withActive w.active, ?_, ?_, ?_⟩
    · simp only [callValidated_eq_proceed]
      have hproceed : Ends (fun depth => proceed (call code depth) ⟨f, s, mode⟩ args none) w₁
          (s.released ask f mode outcome) w₃ :=
        Ends.bind (k := fun outcome depth => release (call code depth) ⟨f, s, mode⟩ outcome)
          ⟨depth, hcall⟩ hreleased
      exact (hends.bind (k := fun stop depth => proceed (call code depth) ⟨f, s, mode⟩ args stop)
        hproceed).within f.name
    · rw [hview.calls, hafter]
    · rw [hactive₂, hbetween] at hignored'
      refine hignored'.trans ?_
      rw [Signature.violations, Mode.ignores_append, ← List.append_assoc]
      exact congrArg (· ++ _) hignored
  · intro hnone
    obtain ⟨enough, hargs⟩ := hends
    refine ⟨enough, fun depth hdepth => ?_⟩
    rw [callValidated_eq_proceed, within_apply, bind_apply]
    have hchecked := hargs depth hdepth
    simp only at hchecked ⊢
    rw [hchecked, Option.bind_some, proceed, bind_apply, hnone]
    rfl

end Ending

end Machine

end RuntimeContracts
