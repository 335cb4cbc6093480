import RuntimeContracts.Proofs.Contract.Checkpoints
import RuntimeContracts.Proofs.Machine.Bodies

/-!
The three modes are three views of one check. With predicates that decide by their argument alone and do
not disturb the function, a call comes to what the function answers in the modes that do not raise; the
mode that warns reports the violations, first that of the arguments and then that of the result; and the
mode that raises stops at the first of them and otherwise comes to the same. The function is asked once,
unless its arguments stop the call.
-/
namespace RuntimeContracts

variable {σ γ : Type}

/-- A call of the function in this world comes to the outcome, if there is depth enough. -/
def Code.Yields (code : Code σ) (f : Callable) (args : Key) (w : World σ) (outcome : Outcome) : Prop :=
  ∃ depth w', Machine.call code depth f args w = some (outcome, w')

/-- The predicates of the signature decide by their argument alone and leave a view of the world, and
what the function answers is determined by that view. -/
structure Code.Undisturbed (code : Code σ) (s : Signature) (ask : Callable → Value → Bool)
    (f : Callable) (args : Key) (view : World σ → γ) : Prop where
  overlooks : World.Overlooks view
  decides : code.Decides s ask view
  determined : ∀ w w' outcome, view w = view w' →
    code.Yields f args w outcome → code.Yields f args w' outcome
  /-- The view has the executions of the function, so the predicates do not make any. -/
  counts : ∀ w w', view w = view w' → w.executions f.body = w'.executions f.body

def Code.checkedCall (code : Code σ) (depth : Nat) (f : Callable) (s : Signature) (args : Key)
    (mode : Mode) : Machine σ Outcome :=
  Machine.callValidated (Machine.call code depth) ⟨f, s, mode⟩ args

section Running

variable (code : Code σ) (s : Signature) (ask : Callable → Value → Bool) (f : Callable) (args : Key)
  (view : World σ → γ) (w : World σ)

inductive Code.ModeRun (mode : Mode) (depth : Nat) : Option (Outcome × World σ) → Prop
  | stopped {e : Mismatch} {w' : World σ}
      (hstops : mode.stops (s.argsViolation ask f args) = some e) (hview : view w' = view w)
      (hignored : w'.ignored (f.name :: w.active) = w.ignored (f.name :: w.active) ++
        mode.ignores (s.argsViolation ask f args).toList) :
      ModeRun mode depth (some (.error (.mismatch e), w'))
  | answered {outcome : Outcome} {w₀ w₁ w₂ w' : World σ}
      (hstops : mode.stops (s.argsViolation ask f args) = none)
      (hplain : Machine.call code depth f args w = some (outcome, w₀))
      (hbefore : view w₁ = view w) (hcall : Machine.call code depth f args w₁ = some (outcome, w₂))
      (hafter : view w' = view w₂)
      (hignored : w'.ignored (f.name :: w.active) = w.ignored (f.name :: w.active) ++
        mode.ignores (s.violations ask f args outcome)) :
      ModeRun mode depth (some (s.released ask f mode outcome, w'))
  | unanswered (hstops : mode.stops (s.argsViolation ask f args) = none)
      (hplain : Machine.call code depth f args w = none) : ModeRun mode depth none

/-- What the three modes have to do with each other and with the plain call of the function. -/
structure World.OneCheck (depth : Nat) : Prop where
  /-- Without checks there is the call of the function and nothing else. -/
  off : code.checkedCall depth f s args .off = Machine.within f.name (Machine.call code depth f args)
  /-- A mode that does not raise answers what the function answers. -/
  plain : ∀ mode : Mode, mode.raises = false →
    (code.checkedCall depth f s args mode w).map Prod.fst =
      (Machine.call code depth f args w).map Prod.fst
  /-- The mode that warns reports what the checks find, in their order. -/
  reported : ∀ outcome w', code.checkedCall depth f s args .warn w = some (outcome, w') →
    w'.ignored (f.name :: w.active) =
      w.ignored (f.name :: w.active) ++ s.violations ask f args outcome
  /-- The others report nothing. -/
  quiet : ∀ mode outcome w', mode ≠ .warn →
    code.checkedCall depth f s args mode w = some (outcome, w') →
      w'.ignored (f.name :: w.active) = w.ignored (f.name :: w.active)
  /-- The mode that raises stops at the first violation of which the other one warns, and if there is
  none, then it answers the same. -/
  strict : ∀ outcome w', code.checkedCall depth f s args .warn w = some (outcome, w') →
    (code.checkedCall depth f s args .enforce w).map Prod.fst =
      some (match (s.violations ask f args outcome).head? with
        | some e => .error (.mismatch e)
        | none => outcome)
  /-- So it does if the function has no answer, with arguments that it does not accept. -/
  barred : ∀ e, s.argsViolation ask f args = some e → ∃ w',
    code.checkedCall depth f s args .enforce w = some (.error (.mismatch e), w') ∧ view w' = view w
  unanswered : s.argsViolation ask f args = none →
    code.checkedCall depth f s args .warn w = none → code.checkedCall depth f s args .enforce w = none
  /-- The function is asked once, and nothing else is done to the view of the world. -/
  asked : ∀ mode outcome w', code.checkedCall depth f s args mode w = some (outcome, w') →
    mode.stops (s.argsViolation ask f args) = none → ∃ w₁ w₂ answer, view w₁ = view w ∧
      Machine.call code depth f args w₁ = some (answer, w₂) ∧ view w' = view w₂
  executed : ∀ mode outcome w', code.checkedCall depth f s args mode w = some (outcome, w') →
    code.RunsAlone f → w'.executions f.body = w.executions f.body ++
      if (mode.stops (s.argsViolation ask f args)).isSome then [] else [args]

end Running

section Undisturbed

variable {code : Code σ} {s : Signature} {ask : Callable → Value → Bool} {f : Callable} {args : Key}
  {view : World σ → γ} (h : code.Undisturbed s ask f args view) (w : World σ)

include h

/-- From some depth on a call in this mode goes one of the three ways. -/
theorem exists_modeRun (mode : Mode) : ∃ enough, ∀ depth, enough ≤ depth →
    code.ModeRun s ask f args view w mode depth (code.checkedCall depth f s args mode w) := by
  unfold Code.checkedCall
  cases hstops : mode.stops (s.argsViolation ask f args) with
  | some e =>
    obtain ⟨w', ⟨enough, hends⟩, hview, hignored⟩ :=
      Machine.ends_stopped h.overlooks h.decides f mode args w e hstops
    refine ⟨enough, fun depth hdepth => ?_⟩
    have hrun : Machine.callValidated (Machine.call code depth) ⟨f, s, mode⟩ args w = _ :=
      hends depth hdepth
    rw [hrun]
    exact Code.ModeRun.stopped hstops hview hignored
  | none =>
    obtain ⟨w₁, hbefore, hanswered, hunanswered⟩ :=
      Machine.exists_asked h.overlooks h.decides f mode args w hstops
    by_cases hyields : ∃ outcome, code.Yields f args w outcome
    · obtain ⟨outcome, hyields⟩ := hyields
      obtain ⟨depth₁, w₂, hcall⟩ := h.determined w w₁ outcome hbefore.symm hyields
      obtain ⟨depth₀, w₀, hplain⟩ := hyields
      have hends := Machine.ends_of_call code hcall
      obtain ⟨w', ⟨enough, hrun⟩, hafter, hignored⟩ := hanswered outcome w₂ hends
      refine ⟨max enough (max depth₀ depth₁), fun depth hdepth => ?_⟩
      have hrun' : Machine.callValidated (Machine.call code depth) ⟨f, s, mode⟩ args w = _ :=
        hrun depth (by omega)
      rw [hrun']
      have hplain' := Machine.call_mono code (by omega : depth₀ ≤ depth) f args w _ hplain
      have hcall' := Machine.call_mono code (by omega : depth₁ ≤ depth) f args w₁ _ hcall
      exact Code.ModeRun.answered hstops hplain' hbefore hcall' hafter hignored
    · have hnone (w' : World σ) (hview : view w' = view w) (depth : Nat) :
          Machine.call code depth f args w' = none := by
        cases hcall : Machine.call code depth f args w' with
        | none => rfl
        | some r => exact absurd ⟨r.1, h.determined w' w r.1 hview ⟨depth, r.2, hcall⟩⟩ hyields
      obtain ⟨enough, hrun⟩ := hunanswered (hnone w₁ hbefore)
      refine ⟨enough, fun depth hdepth => ?_⟩
      rw [hrun depth hdepth]
      exact Code.ModeRun.unanswered hstops (hnone w rfl depth)

end Undisturbed

section Comparing

variable {code : Code σ} {s : Signature} {ask : Callable → Value → Bool} {f : Callable} {args : Key}
  {view : World σ → γ} {w : World σ} {mode : Mode} {depth : Nat}

theorem Signature.released_of_not_raises (s : Signature) (ask : Callable → Value → Bool) (f : Callable)
    (hmode : mode.raises = false) (outcome : Outcome) : s.released ask f mode outcome = outcome := by
  simp [released, Mode.stops, hmode]

theorem Code.ModeRun.plain {r : Option (Outcome × World σ)}
    (hrun : code.ModeRun s ask f args view w mode depth r) (hmode : mode.raises = false) :
    r.map Prod.fst = (Machine.call code depth f args w).map Prod.fst := by
  cases hrun with
  | stopped hstops => simp [Mode.stops, hmode] at hstops
  | answered _ hplain =>
    rw [hplain, Option.map_some, Option.map_some, s.released_of_not_raises ask f hmode]
  | unanswered _ hplain => rw [hplain, Option.map_none]

variable {outcome : Outcome} {w' : World σ}

/-- The mode that warns reports all violations, those of the arguments first. -/
theorem Code.ModeRun.reported
    (hrun : code.ModeRun s ask f args view w .warn depth (some (outcome, w'))) :
    w'.ignored (f.name :: w.active) =
      w.ignored (f.name :: w.active) ++ s.violations ask f args outcome := by
  cases hrun with
  | stopped hstops => cases hstops
  | answered _ _ _ _ _ hignored =>
    rw [s.released_of_not_raises ask f rfl]
    exact hignored

theorem Code.ModeRun.quiet (hrun : code.ModeRun s ask f args view w mode depth (some (outcome, w')))
    (hmode : mode ≠ .warn) :
    w'.ignored (f.name :: w.active) = w.ignored (f.name :: w.active) := by
  have hnone (violations : List Mismatch) : mode.ignores violations = [] := by
    cases mode with
    | warn => exact absurd rfl hmode
    | enforce => rfl
    | off => rfl
  cases hrun with
  | stopped _ _ hignored => rw [hignored, hnone, List.append_nil]
  | answered _ _ _ _ _ hignored => rw [hignored, hnone, List.append_nil]

/-- The call that raises, next to the one that warns. -/
theorem Code.ModeRun.strict {r : Option (Outcome × World σ)}
    (hwarn : code.ModeRun s ask f args view w .warn depth (some (outcome, w')))
    (henforce : code.ModeRun s ask f args view w .enforce depth r) :
    r.map Prod.fst = some (match (s.violations ask f args outcome).head? with
      | some e => .error (.mismatch e)
      | none => outcome) := by
  cases hwarn with
  | stopped hstops => cases hstops
  | @answered answer _ _ _ _ _ hplain =>
    rw [s.released_of_not_raises ask f rfl]
    cases henforce with
    | stopped hstops =>
      have hviolation : s.argsViolation ask f args = some _ := hstops
      simp [Signature.violations, hviolation]
    | @answered answer' _ _ _ _ hstops hplain' =>
      have hviolation : s.argsViolation ask f args = none := hstops
      obtain rfl : answer' = answer :=
        congrArg Prod.fst (Option.some.inj (hplain'.symm.trans hplain))
      rw [Signature.violations, hviolation, Signature.released, Option.map_some]
      cases hresult : s.outcomeViolation ask f answer' <;> simp [Mode.stops, Mode.raises]
    | unanswered _ hplain' => cases hplain'.symm.trans hplain

theorem Code.ModeRun.barred {r : Option (Outcome × World σ)} {e : Mismatch}
    (hrun : code.ModeRun s ask f args view w .enforce depth r)
    (hviolation : s.argsViolation ask f args = some e) :
    ∃ w', r = some (.error (.mismatch e), w') ∧ view w' = view w := by
  have hstops : Mode.enforce.stops (s.argsViolation ask f args) = some e := hviolation
  cases hrun with
  | @stopped e' w' hstops' hview =>
    obtain rfl : e' = e := Option.some.inj (hstops'.symm.trans hstops)
    exact ⟨w', rfl, hview⟩
  | answered hnone => cases hnone.symm.trans hstops
  | unanswered hnone => cases hnone.symm.trans hstops

theorem Code.ModeRun.eq_none {r : Option (Outcome × World σ)}
    (hrun : code.ModeRun s ask f args view w mode depth r)
    (hstops : mode.stops (s.argsViolation ask f args) = none)
    (hplain : Machine.call code depth f args w = none) : r = none := by
  cases hrun with
  | stopped hsome => cases hstops.symm.trans hsome
  | answered _ hsome => cases hplain.symm.trans hsome
  | unanswered => rfl

/-- A call that is not stopped asks the function where nothing has changed. -/
theorem Code.ModeRun.asked (hrun : code.ModeRun s ask f args view w mode depth (some (outcome, w')))
    (hstops : mode.stops (s.argsViolation ask f args) = none) :
    ∃ w₁ w₂ answer, view w₁ = view w ∧
      Machine.call code depth f args w₁ = some (answer, w₂) ∧ view w' = view w₂ := by
  cases hrun with
  | stopped hsome => cases hstops.symm.trans hsome
  | answered _ _ hbefore hcall hafter => exact ⟨_, _, _, hbefore, hcall, hafter⟩

/-- A function that runs alone is executed once, unless the arguments stop the call. -/
theorem Code.ModeRun.executed (h : code.Undisturbed s ask f args view)
    (hrun : code.ModeRun s ask f args view w mode depth (some (outcome, w')))
    (halone : code.RunsAlone f) : w'.executions f.body = w.executions f.body ++
      if (mode.stops (s.argsViolation ask f args)).isSome then [] else [args] := by
  cases hrun with
  | stopped hstops hview =>
    rw [hstops, h.counts _ _ hview]
    exact (List.append_nil _).symm
  | answered hstops _ hbefore hcall hafter =>
    rw [hstops, h.counts _ _ hafter, Machine.executions_of_runsAlone halone _ _ _ _ _ hcall,
      h.counts _ _ hbefore]
    rfl

end Comparing

/-- Whatever the world, with depth enough the calls in the three modes are views of one check. -/
theorem modes_view_one_check (code : Code σ) (s : Signature) (ask : Callable → Value → Bool)
    (f : Callable) (args : Key) (view : World σ → γ) (h : code.Undisturbed s ask f args view)
    (w : World σ) : ∃ enough, ∀ depth, enough ≤ depth → w.OneCheck code s ask f args view depth := by
  obtain ⟨enoughOff, hoff⟩ := exists_modeRun h w .off
  obtain ⟨enoughWarn, hwarn⟩ := exists_modeRun h w .warn
  obtain ⟨enoughEnforce, henforce⟩ := exists_modeRun h w .enforce
  refine ⟨max enoughOff (max enoughWarn enoughEnforce), fun depth hdepth => ?_⟩
  have hruns (mode : Mode) :
      code.ModeRun s ask f args view w mode depth (code.checkedCall depth f s args mode w) := by
    cases mode with
    | off => exact hoff depth (by omega)
    | warn => exact hwarn depth (by omega)
    | enforce => exact henforce depth (by omega)
  have hran {mode : Mode} {r : Option (Outcome × World σ)}
      (hrun : code.checkedCall depth f s args mode w = r) :
      code.ModeRun s ask f args view w mode depth r := hrun ▸ hruns mode
  constructor
  · exact Machine.callValidated_off (Machine.call code depth) f s args
  · exact fun mode hmode => (hruns mode).plain hmode
  · exact fun outcome w' hrun => (hran hrun).reported
  · exact fun mode outcome w' hmode hrun => (hran hrun).quiet hmode
  · exact fun outcome w' hrun => (hran hrun).strict (hruns .enforce)
  · exact fun e hviolation => (hruns .enforce).barred hviolation
  · intro hfit hnone
    have hplain := (hran hnone).plain rfl
    exact (hruns .enforce).eq_none hfit (Option.map_eq_none_iff.mp hplain.symm)
  · exact fun mode outcome w' hrun hstops => (hran hrun).asked hstops
  · exact fun mode outcome w' hrun halone => (hran hrun).executed h halone

/-- A call in which both the arguments and the result are wrong, with a predicate asked in between. -/
theorem modes_view_one_check_null :
    let f : Callable := ⟨"first", ["x"], 0⟩
    let q : Callable := ⟨"echo", ["x"], 1⟩
    let echo : Body Unit := .program fun args => pure (.ok (args.headD .undefined))
    let code : Code Unit := ⟨#[echo, echo], #[]⟩
    let s : Signature := ⟨[(0, [.native .bool])], [.predicate q, .native .string],
      List.pairwise_singleton _ _⟩
    let ask : Callable → Value → Bool := fun _ v => v.same v
    let view : World Unit → List Key := fun w => w.executions f.body
    (s.violations ask f [.null] (.ok .null)).length = 2 ∧ code.RunsAlone f ∧
      code.Undisturbed s ask f [.null] view ∧
      ∃ enough, ∀ depth, enough ≤ depth →
        (World.start ()).OneCheck code s ask f [.null] view depth := by
  intro f q echo code s ask view
  have hstill (w : World Unit) (event : Event) (h : Entry.startOf 0 ⟨event, w.active⟩ = none) :
      view (w.record event) = view w := by
    simp [view, f, World.executions_record, h]
  have hundisturbed : code.Undisturbed s ask f [.null] view := by
    constructor
    · exact ⟨fun _ _ => rfl, fun w e => hstill w _ rfl⟩
    · intro p hp v
      obtain rfl : p = q := by simpa [Signature.Mentions, Spec.predicates, s] using hp
      have hechoed : Machine.Settled view (fun depth => Machine.call code depth q [v]) (.ok v) :=
        Machine.settled_call_done rfl rfl fun w => hstill w _ rfl
      exact Machine.settled_deepPasses (fun w _ => hstill w _ rfl) hechoed
    · rintro w w' outcome - ⟨depth, w₁, hrun⟩
      obtain ⟨inner, rfl⟩ := Machine.exists_depth_of_call _ _ _ _ _ _ hrun
      obtain ⟨rfl, -⟩ := Prod.mk.inj (Option.some.inj hrun)
      exact ⟨1, _, rfl⟩
    · exact fun w w' hview => hview
  have halone : code.RunsAlone f := by
    refine ⟨_, rfl, fun depth args w outcome w' hrun => ?_⟩
    obtain ⟨-, rfl⟩ := Prod.mk.inj (Option.some.inj hrun)
    rfl
  exact ⟨by decide +kernel, halone, hundisturbed,
    modes_view_one_check code s ask f [.null] view hundisturbed (World.start ())⟩

end RuntimeContracts
