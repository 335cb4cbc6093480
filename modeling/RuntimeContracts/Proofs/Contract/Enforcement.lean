import RuntimeContracts.Contract
import RuntimeContracts.Proofs.Contract.Modes
import RuntimeContracts.Proofs.Machine.Checks

/-!
Contracts that are enforced around a memoizer. The checks stand outside of the cache: arguments are
checked before the memoizer is called, and results after it, wherever they come from. So whatever others
have put into the cache, a call that returns a value returns one that fits, and the memoized function is
asked for arguments that fit, once if they are not in the cache and else not at all. If the predicates
come to their answers, a call has a result unless it has to ask the function, and this has none.
-/
namespace RuntimeContracts

/-- Calls of `g` are checked calls of `h`, and those are calls of memoizer `i`. -/
structure Code.Layers {σ : Type} (code : Code σ) (g h : Callable) (s : Signature) (i : Nat) (m : Memoizer) :
    Prop where
  checked : code.bodies[g.body]? = some (.validated ⟨h, s, .enforce⟩)
  memoized : code.bodies[h.body]? = some (.memoized i)
  memoizer : code.memoizers[i]? = some m

/-- The predicates of the signature answer by their argument alone, and leave memoizer `i` and the
function behind it as they are. -/
def Code.JudgesPurely {σ : Type} (code : Code σ) (s : Signature) (ask : Callable → Value → Bool)
    (i body : Nat) : Prop :=
  ∀ q, s.Mentions q → ∀ depth v, Machine.Answers (World.standing (σ := σ) · i body)
    (Machine.passes (Machine.call code depth) q v) (ask q v)

/-- Between two worlds, memoizer `i` has been called once, with these arguments: either it found its
result and the function did not run, or it asked the function, which ran on them first, and not again if
it runs apart. -/
structure World.Served {σ : Type} (w w' : World σ) (code : Code σ) (i : Nat) (m : Memoizer)
    (args : Key) : Prop where
  hit : ∀ v, (w.cache i).lookup args = some v →
    w'.steps i = w.steps i ++ [.called args, .hit args v] ∧
      w'.executions m.function.body = w.executions m.function.body
  missed : (w.cache i).lookup args = none → ∃ inside answer c, w'.steps i = w.steps i ++ .called args ::
    .missed args :: (inside ++ .answered args answer :: Cache.closing c m.policy args answer)
  asked : (w.cache i).lookup args = none → ∀ body, code.bodies[m.function.body]? = some (.program body) →
    ∃ more, w'.executions m.function.body = w.executions m.function.body ++ args :: more
  ran : (w.cache i).lookup args = none → code.RunsApart m.function i →
    w'.executions m.function.body = w.executions m.function.body ++ [args]

structure World.Enforced {σ : Type} (w w' : World σ) (code : Code σ) (s : Signature)
    (ask : Callable → Value → Bool) (i : Nat) (m : Memoizer) (args : Key) (outcome : Outcome) :
    Prop where
  /-- Arguments that do not fit get to neither the memoizer nor the function. -/
  barred : ¬ s.ArgsFit ask args → (∃ e, outcome = .error (.mismatch e)) ∧
    w'.standing i m.function.body = w.standing i m.function.body
  /-- Arguments that fit do, and the memoizer is called with them and with nothing else. -/
  served : s.ArgsFit ask args → w.Served w' code i m args
  /-- Whatever is returned fits, wherever it came from. -/
  returned : ∀ v, outcome = .ok v → s.ResultFits ask v

section Completing

variable {σ : Type} (w : World σ) (code : Code σ) (g h : Callable) (s : Signature)
  (ask : Callable → Value → Bool) (i : Nat) (m : Memoizer) (args : Key)

/-- The call of `g` has this result, if there is depth enough, in a world that is left like the second one. -/
def World.Comes (outcome : Outcome) (w₁ : World σ) : Prop :=
  ∃ w', Machine.Ends (fun depth => Machine.call code depth g args) w outcome w' ∧
    w'.standing i m.function.body = w₁.standing i m.function.body

/-- A call of `g` that asks the function does so from a world that is as before, and it comes to what the function
answers, or to a mismatch of it; without an answer it has no result. -/
structure World.Asks (w₁ : World σ) : Prop where
  before : w₁.standing i m.function.body = w.standing i m.function.body
  answered : ∀ outcome w₂,
    Machine.Ends (fun depth => Machine.call code depth m.function args) (w₁.missing i m args) outcome w₂ →
      w.Comes code g i m args (s.released ask h .enforce outcome) (w₂.concluding i m args outcome)
  unanswered : (∀ depth, Machine.call code depth m.function args (w₁.missing i m args) = none) →
    ∀ depth, Machine.call code depth g args w = none

/-- How a call of `g` under an enforced contract comes to a result, if the predicates come to their answers. -/
structure World.Completes : Prop where
  barred : ∀ e, s.argsViolation ask h args = some e → w.Comes code g i m args (.error (.mismatch e)) w
  /-- What is in the cache is checked and returned. -/
  hit : s.ArgsFit ask args → ∀ v, (w.cache i).lookup args = some v →
    w.Comes code g i m args (s.released ask h .enforce (.ok v)) (w.hitting i m args v)
  missed : s.ArgsFit ask args → (w.cache i).lookup args = none → ∃ w₁, w.Asks code g h s ask i m args w₁
  /-- A function that runs apart and always answers is executed exactly once, if and only if it has to be. -/
  executed : code.RunsApart m.function i → (∀ w₁, ∃ outcome, code.Yields m.function args w₁ outcome) →
    ∃ outcome w', Machine.Ends (fun depth => Machine.call code depth g args) w outcome w' ∧
      (s.ArgsFit ask args ∧ (w.cache i).lookup args = none →
        w'.executions m.function.body = w.executions m.function.body ++ [args]) ∧
      (¬ (s.ArgsFit ask args ∧ (w.cache i).lookup args = none) →
        w'.executions m.function.body = w.executions m.function.body)

end Completing

section Serving

variable {σ : Type} {code : Code σ} {i : Nat} {m : Memoizer}

/-- A call of the memoizer serves its arguments. -/
theorem served_callMemoized (hm : code.memoizers[i]? = some m) (depth : Nat) (args : Key)
    (w w' : World σ) (outcome : Outcome)
    (hrun : Machine.callMemoized code (Machine.call code depth) i args w = some (outcome, w')) :
    w.Served w' code i m args := by
  have hcall := Machine.evolving_call code i depth
  rcases Machine.callMemoized_cases code i hcall m hm args w w' outcome hrun with
    ⟨v, hlookup, rfl, rfl⟩ | ⟨hlookup, w₁, inside, hcalled, hsteps, -, rfl⟩
  · have hfound : (w.cache i).lookup args ≠ none := by simp [hlookup]
    constructor
    · intro u hu
      obtain rfl : v = u := Option.some.inj (hlookup.symm.trans hu)
      simp [World.hitting]
    · intro hnone
      exact absurd hnone hfound
    · intro hnone
      exact absurd hnone hfound
    · intro hnone
      exact absurd hnone hfound
  · constructor
    · intro v hv
      exact absurd (hlookup.symm.trans hv) (by simp)
    · intro _
      refine ⟨inside, outcome, w₁.cache i, ?_⟩
      simp [World.steps_concluding, hsteps]
    · intro _ body hbody
      have hasked := Machine.executions_of_call hbody depth args _ w₁ outcome hcalled
      simpa [World.missing] using hasked
    · intro _ hapart
      have hran := Machine.executions_of_runsAlone hapart.runsAlone depth args _ w₁ outcome hcalled
      simpa [World.missing] using hran

/-- Only the standings of the two worlds matter. -/
theorem World.Served.of_standing {w w₁ w' w₁' : World σ} {args : Key}
    (h : w₁.Served w₁' code i m args)
    (hbefore : w₁.standing i m.function.body = w.standing i m.function.body)
    (hafter : w'.standing i m.function.body = w₁'.standing i m.function.body) :
    w.Served w' code i m args := by
  obtain ⟨hsteps, hcache, hexecutions⟩ := World.standing_eq_iff.mp hbefore
  obtain ⟨hsteps', -, hexecutions'⟩ := World.standing_eq_iff.mp hafter
  obtain ⟨hhit, hmissed, hasked, hran⟩ := h
  rw [hsteps, hcache, hexecutions, ← hsteps', ← hexecutions'] at hhit
  rw [hsteps, hcache, ← hsteps'] at hmissed
  rw [hcache, hexecutions, ← hexecutions'] at hasked hran
  exact ⟨hhit, hmissed, hasked, hran⟩

end Serving

section Enforcing

variable {σ : Type} {code : Code σ} {i : Nat} {m : Memoizer} {s : Signature}
  {ask : Callable → Value → Bool} (hm : code.memoizers[i]? = some m)
  (hask : code.JudgesPurely s ask i m.function.body)

include hm hask

/-- A call that passes the first check serves its arguments, whatever the second check says. -/
theorem enforced_of_passed (h : Callable) (hh : code.bodies[h.body]? = some (.memoized i))
    (depth : Nat) (args : Key) (w w₁ w₂ w₃ : World σ) (answer outcome : Outcome)
    (hargs : Machine.checkpoint .enforce
      (s.checkArgs (Machine.fits (Machine.call code depth)) h args) w = some (none, w₁))
    (hcall : Machine.call code depth h args w₁ = some (answer, w₂))
    (hafter : w₃.standing i m.function.body = w₂.standing i m.function.body)
    (hreturned : ∀ v, outcome = .ok v → s.ResultFits ask v) :
    w.Enforced w₃ code s ask i m args outcome := by
  have hpure := fun q hq => hask q hq depth
  obtain ⟨hviolation, hbefore⟩ := Machine.answers_enforceArgs s hpure h args w none w₁ hargs
  have hfit : s.ArgsFit ask args := (s.argsViolation_eq_none_iff ask h args).mp hviolation.symm
  obtain ⟨inner, rfl⟩ := Machine.exists_depth_of_call code args w₁ depth h _ hcall
  rw [Machine.call_memoized code i args inner h hh] at hcall
  have hserved := served_callMemoized hm inner args w₁ w₂ answer hcall
  constructor
  · intro hunfit
    exact absurd hfit hunfit
  · intro _
    exact hserved.of_standing hbefore hafter
  · exact hreturned

/-- What a validated call in the strictest mode does around a function that calls the memoizer. -/
theorem enforced_of_validating (h : Callable) (hh : code.bodies[h.body]? = some (.memoized i))
    (depth : Nat) (args : Key) (w w' : World σ) (outcome : Outcome)
    (hrun : Machine.Validating (Machine.call code depth) ⟨h, s, .enforce⟩ args w outcome w') :
    w.Enforced w' code s ask i m args outcome := by
  have hpure := fun q hq => hask q hq depth
  cases hrun with
  | @rejected e w₁ hargs =>
    obtain ⟨hviolation, hstanding⟩ := Machine.answers_enforceArgs s hpure h args w (some e) w' hargs
    have hunfit : ¬ s.ArgsFit ask args := by
      intro hfit
      rw [(s.argsViolation_eq_none_iff ask h args).mpr hfit] at hviolation
      cases hviolation
    constructor
    · intro _
      exact ⟨⟨e, rfl⟩, hstanding⟩
    · intro hfit
      exact absurd hfit hunfit
    · intro v hv
      cases hv
  | @failed e w₁ w₂ hargs hcall =>
    apply enforced_of_passed hm hask h hh depth args w w₁ w' w' _ _ hargs hcall rfl
    intro v hv
    cases hv
  | @refused result e w₁ w₂ w₃ hargs hcall hreturn =>
    have hafter := (Machine.answers_enforceReturn s hpure h result w₂ (some e) w' hreturn).2
    apply enforced_of_passed hm hask h hh depth args w w₁ w₂ w' _ _ hargs hcall hafter
    intro v hv
    cases hv
  | @accepted result w₁ w₂ w₃ hargs hcall hreturn =>
    obtain ⟨hresult, hafter⟩ := Machine.answers_enforceReturn s hpure h result w₂ none w' hreturn
    apply enforced_of_passed hm hask h hh depth args w w₁ w₂ w' _ _ hargs hcall hafter
    intro v hv
    obtain rfl : result = v := Except.ok.inj hv
    exact (s.resultViolation_eq_none_iff ask h result).mp hresult.symm

end Enforcing

theorem World.overlooks_standing {σ : Type} (i body : Nat) :
    World.Overlooks fun w : World σ => w.standing i body where
  calls _ _ := rfl
  reports w _ := standing_record w i body _ rfl rfl

/-- Predicates that come to their answers answer by their argument alone. -/
theorem Code.Decides.judgesPurely {σ : Type} {code : Code σ} {s : Signature} {ask : Callable → Value → Bool}
    {i body : Nat} (h : code.Decides s ask (World.standing · i body)) : code.JudgesPurely s ask i body := by
  intro q hq depth v w b w' hrun
  obtain ⟨w₁, hends, hview⟩ := h q hq v w
  obtain ⟨enough, hends⟩ := hends
  let deep := max depth enough
  have hmono : Machine.Refines (Machine.passes (Machine.call code depth) q v)
      (Machine.passes (Machine.call code deep) q v) :=
    Machine.refinement.rel_passes (fun f args => Machine.call_mono code (by omega : depth ≤ deep) f args) q v
  have hdeep := hends deep (by omega)
  obtain ⟨rfl, rfl⟩ := Prod.mk.inj (Option.some.inj ((hmono w _ hrun).symm.trans hdeep))
  exact ⟨rfl, hview⟩

section Layered

variable {σ γ : Type} {code : Code σ} {g h : Callable} {s : Signature} {i : Nat} {m : Memoizer}
  (hg : code.Layers g h s i m) {ask : Callable → Value → Bool}

include hg

/-- A call of `g` that has a result is a call under an enforced contract. -/
theorem Code.Layers.enforced (hask : code.JudgesPurely s ask i m.function.body) (depth : Nat) (args : Key)
    (w w' : World σ) (outcome : Outcome) (hrun : Machine.call code depth g args w = some (outcome, w')) :
    w.Enforced w' code s ask i m args outcome := by
  obtain ⟨inner, rfl⟩ := Machine.exists_depth_of_call code args w depth g _ hrun
  rw [Machine.call_validated code args inner g _ hg.checked] at hrun
  obtain ⟨w₁, hvalidating, rfl⟩ := Machine.validating_of_callValidated _ _ args w w' outcome hrun
  have henforced := enforced_of_validating hg.memoizer hask h hg.memoized inner args _ w₁ outcome hvalidating
  constructor
  · exact henforced.barred
  · intro hfit
    exact (henforced.served hfit).of_standing rfl rfl
  · exact henforced.returned

theorem Code.Layers.ends_call {args : Key} {w w' : World σ} {outcome : Outcome}
    (hends : Machine.Ends (fun depth => Machine.callValidated (Machine.call code depth) ⟨h, s, .enforce⟩ args)
      w outcome w') : Machine.Ends (fun depth => Machine.call code depth g args) w outcome w' :=
  hends.deeper fun depth => Machine.call_validated code args depth g _ hg.checked

/-- The call of `g`, if its arguments pass, ends as soon as the call of `h` does, and only then. -/
theorem Code.Layers.exists_ends {view : World σ → γ} (hview : World.Overlooks view)
    (hask : code.Decides s ask view) {args : Key} (w : World σ) (hfit : s.argsViolation ask h args = none) :
    ∃ w₁, view w₁ = view w ∧
      (∀ outcome w₂, Machine.Ends (fun depth => Machine.call code depth h args) w₁ outcome w₂ → ∃ w',
        Machine.Ends (fun depth => Machine.call code depth g args) w
          (s.released ask h .enforce outcome) w' ∧ view w' = view w₂) ∧
      ((∀ depth, Machine.call code depth h args w₁ = none) → ∀ depth, Machine.call code depth g args w = none) := by
  obtain ⟨w₁, hbefore, hanswered, hunanswered⟩ := Machine.exists_asked hview hask h .enforce args w hfit
  refine ⟨w₁, hbefore, fun outcome w₂ hcall => ?_, fun hnone => ?_⟩
  · obtain ⟨w', hends, hafter, -⟩ := hanswered outcome w₂ hcall
    exact ⟨w', hg.ends_call hends, hafter⟩
  · have hstalls : Machine.Stalls
        (fun depth => Machine.callValidated (Machine.call code depth) ⟨h, s, .enforce⟩ args) w := hunanswered hnone
    exact (hstalls.deeper fun depth => Machine.call_validated code args depth g _ hg.checked).call_eq_none

/-- A memoized call of a function without an answer has no result. -/
theorem Code.Layers.call_eq_none {args : Key} {w : World σ} (hlookup : (w.cache i).lookup args = none)
    (hnone : ∀ depth, Machine.call code depth m.function args (w.missing i m args) = none) (depth : Nat) :
    Machine.call code depth h args w = none := by
  cases depth with
  | zero => rfl
  | succ depth =>
    rw [Machine.call_memoized code i args depth h hg.memoized,
      Machine.callMemoized_eq code _ i m args w hg.memoizer, hlookup]
    simp only [hnone depth, Option.map_none]

variable (hask : code.Decides s ask (World.standing · i m.function.body)) (args : Key) (w : World σ)

include hask

/-- A result in the cache is released or refused, and the function is not asked. -/
theorem Code.Layers.comes_hit (hfit : s.ArgsFit ask args) (v : Value) (hlookup : (w.cache i).lookup args = some v) :
    w.Comes code g i m args (s.released ask h .enforce (.ok v)) (w.hitting i m args v) := by
  have hpass := (s.argsViolation_eq_none_iff ask h args).mpr hfit
  obtain ⟨w₁, hbefore, hends, -⟩ := hg.exists_ends (World.overlooks_standing i _) hask w hpass
  obtain ⟨hsteps, hcache, hexecutions⟩ := World.standing_eq_iff.mp hbefore
  obtain ⟨w', hcall, hafter⟩ :=
    hends _ _ (Machine.ends_hit hg.memoizer hg.memoized (by rw [hcache, hlookup]))
  refine ⟨w', hcall, hafter.trans ?_⟩
  simp [World.standing, World.hitting, hsteps, hcache, hexecutions]

/-- Without a result in the cache the function is asked, and its answer is what counts. -/
theorem Code.Layers.asks_missed (hfit : s.ArgsFit ask args) (hlookup : (w.cache i).lookup args = none) :
    ∃ w₁, w.Asks code g h s ask i m args w₁ := by
  have hpass := (s.argsViolation_eq_none_iff ask h args).mpr hfit
  obtain ⟨w₁, hbefore, hends, hstalls⟩ := hg.exists_ends (World.overlooks_standing i _) hask w hpass
  have hlookup₁ : (w₁.cache i).lookup args = none := by
    obtain ⟨-, hcache, -⟩ := World.standing_eq_iff.mp hbefore
    rw [hcache, hlookup]
  refine ⟨w₁, hbefore, fun outcome w₂ hasked => ?_, fun hnone => hstalls (hg.call_eq_none hlookup₁ hnone)⟩
  obtain ⟨w', hcall, hafter⟩ := hends _ _ (Machine.ends_missed hg.memoizer hg.memoized hlookup₁ hasked)
  exact ⟨w', hcall, hafter⟩

/-- Arguments that do not fit end the call before the memoizer. -/
theorem Code.Layers.comes_barred (e : Mismatch) (hviolation : s.argsViolation ask h args = some e) :
    w.Comes code g i m args (.error (.mismatch e)) w := by
  obtain ⟨w', hends, hsame, -⟩ :=
    Machine.ends_stopped (World.overlooks_standing i _) hask h .enforce args w e hviolation
  exact ⟨w', hg.ends_call hends, hsame⟩

theorem Code.Layers.completes : w.Completes code g h s ask i m args := by
  constructor
  · exact hg.comes_barred hask args w
  · exact hg.comes_hit hask args w
  · exact hg.asks_missed hask args w
  · intro hapart hanswers
    cases hviolation : s.argsViolation ask h args with
    | some e =>
      obtain ⟨w', hends, hsame⟩ := hg.comes_barred hask args w e hviolation
      have hunfit : ¬ s.ArgsFit ask args := by
        rw [← s.argsViolation_eq_none_iff ask h args, hviolation]
        exact Option.some_ne_none e
      exact ⟨_, w', hends, fun h => absurd h.1 hunfit, fun _ => (World.standing_eq_iff.mp hsame).2.2⟩
    | none =>
      have hfit := (s.argsViolation_eq_none_iff ask h args).mp hviolation
      cases hlookup : (w.cache i).lookup args with
      | some v =>
        obtain ⟨w', hends, hafter⟩ := hg.comes_hit hask args w hfit v hlookup
        obtain ⟨-, -, hexecutions⟩ := World.standing_eq_iff.mp hafter
        refine ⟨_, w', hends, fun h => absurd h.2 (Option.some_ne_none v), fun _ => ?_⟩
        rw [hexecutions]
        simp [World.hitting]
      | none =>
        obtain ⟨w₁, hbefore, hends, -⟩ := hg.asks_missed hask args w hfit hlookup
        obtain ⟨outcome, depth, w₂, hasked⟩ := hanswers (w₁.missing i m args)
        obtain ⟨w', hcall, hafter⟩ := hends outcome w₂ (Machine.ends_of_call code hasked)
        have hran := Machine.executions_of_runsAlone hapart.runsAlone depth args _ w₂ outcome hasked
        obtain ⟨-, -, hkept⟩ := World.standing_eq_iff.mp hbefore
        obtain ⟨-, -, hexecutions⟩ := World.standing_eq_iff.mp hafter
        refine ⟨_, w', hcall, fun _ => ?_, fun h => absurd ⟨hfit, rfl⟩ h⟩
        rw [hexecutions, World.executions_concluding, hran, ← hkept]
        simp [World.missing]

end Layered

/-- An enforced contract holds on every call, whatever the caches hold by then and whoever has put it there: only
arguments that fit get through, only results that fit come back, and the function is asked at most once. If the
predicates come to their answers, so does the call, whenever it need not ask the function or this answers. -/
theorem contract_enforced_on_every_call {σ : Type} (code : Code σ) (g h : Callable) (s : Signature)
    (i : Nat) (m : Memoizer) (hg : code.Layers g h s i m) (ask : Callable → Value → Bool)
    (hask : code.JudgesPurely s ask i m.function.body) (args : Key) (w : World σ) :
    (∀ depth outcome w', Machine.call code depth g args w = some (outcome, w') →
      w.Enforced w' code s ask i m args outcome) ∧
    (code.Decides s ask (World.standing · i m.function.body) → w.Completes code g h s ask i m args) :=
  ⟨fun depth outcome w' hrun => hg.enforced hask depth args w w' outcome hrun,
    fun hdecides => hg.completes hdecides args w⟩

/-- A contract with specs, a cache policy and the strictest mode is built into an enforced one. -/
theorem Contract.layers_build {σ : Type} (c : Contract) (policy : CachePolicy)
    (hmemo : c.memo = some policy) (hspecs : c.signature.isEmpty = false) (hmode : c.mode = .enforce)
    (e : Engine σ) :
    (c.build e).2.code.Layers (c.build e).1 ⟨c.function.name, c.function.params, e.code.bodies.size⟩ c.signature
      e.code.memoizers.size ⟨c.function, policy⟩ := by
  obtain ⟨f, s, memo, mode⟩ := c
  subst hmemo hmode
  let h : Callable := ⟨f.name, f.params, e.code.bodies.size⟩
  have hbuild : Contract.build ⟨f, s, some policy, .enforce⟩ e =
      Engine.defineValidated ⟨h, s, .enforce⟩ (Engine.memoize f policy e).2 := by
    unfold Contract.build
    simp only [hspecs]
    rfl
  have hbodies : (Contract.build ⟨f, s, some policy, .enforce⟩ e).2.code.bodies =
      (e.code.bodies.push (.memoized e.code.memoizers.size)).push (.validated ⟨h, s, .enforce⟩) := by
    rw [hbuild]
    rfl
  have hmemoizers : (Contract.build ⟨f, s, some policy, .enforce⟩ e).2.code.memoizers =
      e.code.memoizers.push ⟨f, policy⟩ := by
    rw [hbuild]
    rfl
  have hbody : (Contract.build ⟨f, s, some policy, .enforce⟩ e).1.body =
      (e.code.bodies.push (.memoized e.code.memoizers.size)).size := by
    rw [hbuild]
    rfl
  constructor
  · rw [hbodies, hbody]
    exact Array.getElem?_push_size
  · have hne : e.code.bodies.size ≠ (e.code.bodies.push (.memoized e.code.memoizers.size)).size := by
      rw [Array.size_push]
      omega
    rw [hbodies]
    change (Array.push _ _)[e.code.bodies.size]? = _
    rw [Array.getElem?_push, if_neg hne]
    exact Array.getElem?_push_size
  · rw [hmemoizers]
    exact Array.getElem?_push_size

/-- An answer of the wrong kind that someone has put into the cache is not returned, and the function is not asked;
for other arguments, which fit as well, it is asked once, and its answer is returned. -/
theorem contract_enforced_on_planted_answer :
    let f : Callable := ⟨"first", ["x"], 0⟩
    let q : Callable := ⟨"echo", ["x"], 1⟩
    let echo : Body Unit := .program fun args => pure (.ok (args.headD .undefined))
    let s : Signature := ⟨[(0, [.predicate q])], [.native .bool], List.pairwise_singleton _ _⟩
    let m : Memoizer := ⟨f, .bounded 1 Nat.one_pos⟩
    let built := Contract.build ⟨f, s, some m.policy, .enforce⟩ ⟨⟨#[echo, echo], #[]⟩, World.start ()⟩
    let w := built.2.world.storeIn 0 m [.bool true] .null
    let ends (args : Key) (outcome : Outcome) (w' : World Unit) : Prop :=
      Machine.Ends (fun depth => Machine.call built.2.code depth built.1 args) w outcome w'
    (∃ e w', ends [.bool true] (.error (.mismatch e)) w' ∧ w'.executions f.body = [] ∧
      w.Enforced w' built.2.code s (fun _ v => v.same v) 0 m [.bool true] (.error (.mismatch e))) ∧
    ∃ w', ends [.bool false] (.ok (.bool false)) w' ∧ w'.executions f.body = [[.bool false]] ∧
      w.Enforced w' built.2.code s (fun _ v => v.same v) 0 m [.bool false] (.ok (.bool false)) := by
  intro f q echo s m built w ends
  let ask : Callable → Value → Bool := fun _ v => v.same v
  let h : Callable := ⟨"first", ["x"], 2⟩
  have hg : built.2.code.Layers built.1 h s 0 m :=
    Contract.layers_build ⟨f, s, some m.policy, .enforce⟩ m.policy rfl rfl rfl
      ⟨⟨#[echo, echo], #[]⟩, World.start ()⟩
  have hdecides : built.2.code.Decides s ask (World.standing · 0 m.function.body) := by
    intro p hp v
    obtain rfl : p = q := by simpa [Signature.Mentions, Spec.predicates, s] using hp
    have hechoed : Machine.Settled (World.standing · 0 m.function.body)
        (fun depth => Machine.call built.2.code depth q [v]) (.ok v) :=
      Machine.settled_call_done rfl rfl fun w => World.standing_record w 0 0 _ rfl rfl
    exact Machine.settled_deepPasses (fun w _ => World.standing_record w 0 0 _ rfl rfl) hechoed
  have hrun (args : Key) := contract_enforced_on_every_call built.2.code built.1 h s 0 m hg ask
    hdecides.judgesPurely args w
  have henforced {args : Key} {outcome : Outcome} {w' : World Unit} (hends : ends args outcome w') :
      w.Enforced w' built.2.code s ask 0 m args outcome := by
    obtain ⟨depth, hcall⟩ := hends
    exact (hrun args).1 depth outcome w' (hcall depth (Nat.le_refl depth))
  have hfit (b : Bool) : s.ArgsFit ask [.bool b] := by
    refine (s.argsViolation_eq_none_iff ask h _).mp ?_
    cases b <;> decide +kernel
  constructor
  · have hlookup : (w.cache 0).lookup [.bool true] = some .null := by rfl
    obtain ⟨w', hends, hafter⟩ := ((hrun [.bool true]).2 hdecides).hit (hfit true) .null hlookup
    exact ⟨_, w', hends, (World.standing_eq_iff.mp hafter).2.2, henforced hends⟩
  · have hlookup : (w.cache 0).lookup [.bool false] = none := by rfl
    obtain ⟨w₁, hbefore, hreturned, -⟩ := ((hrun [.bool false]).2 hdecides).missed (hfit false) hlookup
    have hasked : Machine.call built.2.code 1 f [.bool false] (w₁.missing 0 m [.bool false]) =
        some (.ok (.bool false), (w₁.missing 0 m [.bool false]).record (.started 0 [.bool false])) := rfl
    obtain ⟨w', hends, hafter⟩ := hreturned _ _ (Machine.ends_of_call built.2.code hasked)
    have hkept : w₁.executions 0 = [] := (World.standing_eq_iff.mp hbefore).2.2
    obtain ⟨-, -, hexecutions⟩ := World.standing_eq_iff.mp hafter
    refine ⟨w', hends, ?_, henforced hends⟩
    rw [hexecutions]
    simp [World.missing, World.executions_record, Entry.startOf, m, f, hkept]

end RuntimeContracts
