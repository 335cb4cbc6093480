import RuntimeContracts.Proofs.Cache.Retention
import RuntimeContracts.Proofs.Contract.Enforcement

/-!
What is left of a failing call under an enforced contract around a memoizer. If the arguments are wrong or
the function fails, the cache is as it was. A result that is wrong stays in the cache: the call returns the
mismatch, and so does every later one with these arguments, without the function, until the entry is
evicted, cleared or overwritten.
-/
namespace RuntimeContracts

variable {σ γ : Type}

/-- The predicates do not disturb the function behind memoizer `i`, and neither they nor the function
touch the cache. -/
structure Code.UndisturbedBehind (code : Code σ) (s : Signature) (ask : Callable → Value → Bool)
    (i : Nat) (m : Memoizer) (args : Key) (view : World σ → γ) : Prop
    extends code.Undisturbed s ask m.function args view where
  /-- The view has the cache, but not the journal of its steps. -/
  holds : ∀ w w', view w = view w' → w.cache i = w'.cache i
  notes : ∀ (w : World σ) step, view (w.note i m step) = view w
  apart : ∀ depth w outcome w', Machine.call code depth m.function args w = some (outcome, w') →
    w'.cache i = w.cache i

section Failing

variable (code : Code σ) (g h : Callable) (s : Signature) (ask : Callable → Value → Bool) (i : Nat)
  (m : Memoizer) (args : Key) (view : World σ → γ) (w : World σ)

/-- From this world on, calls with these arguments, or with equal ones that pass the check, are refused
with the mismatch and without the function, for as long as the steps of the cache spare the arguments. -/
def World.Refuses (e : Mismatch) : Prop :=
  ∀ w₁ more args', w.Evolves code i w₁ → w₁.steps i = w.steps i ++ more →
    (∀ step ∈ more, step.spares args) → Value.beqItems args args' →
      s.argsViolation ask h args' = none →
        ∃ w₂, Machine.Ends (fun depth => Machine.call code depth g args') w₁ (.error (.mismatch e)) w₂ ∧
          w₂.cache i = w₁.cache i ∧ w₂.executions m.function.body = w₁.executions m.function.body

structure World.FailsCleanly : Prop where
  /-- Arguments that do not pass. -/
  barred : ∀ e, s.argsViolation ask h args = some e → ∃ w',
    Machine.Ends (fun depth => Machine.call code depth g args) w (.error (.mismatch e)) w' ∧
      w'.cache i = w.cache i ∧ w'.executions m.function.body = w.executions m.function.body
  /-- An error of the function. -/
  failed : s.argsViolation ask h args = none → (w.cache i).lookup args = none →
    ∀ e, code.Yields m.function args w (.error e) → ∃ w',
      Machine.Ends (fun depth => Machine.call code depth g args) w (.error e) w' ∧
        w'.cache i = w.cache i
  /-- A wrong result of the function. -/
  refused : s.argsViolation ask h args = none → (w.cache i).lookup args = none →
    ∀ v e, code.Yields m.function args w (.ok v) → s.resultViolation ask h v = some e → ∃ w',
      Machine.Ends (fun depth => Machine.call code depth g args) w (.error (.mismatch e)) w' ∧
        w'.cache i = ((w.cache i).store m.policy args v).cache ∧
        (w'.cache i).lookup args = some v ∧ w'.Refuses code g h s ask i m args e
  /-- A wrong result in the cache. -/
  found : s.argsViolation ask h args = none →
    ∀ v e, (w.cache i).lookup args = some v → s.resultViolation ask h v = some e → ∃ w',
      Machine.Ends (fun depth => Machine.call code depth g args) w (.error (.mismatch e)) w' ∧
        w'.cache i = w.cache i ∧
        w'.executions m.function.body = w.executions m.function.body ∧
        w'.Refuses code g h s ask i m args e

end Failing

section Undisturbed

variable {code : Code σ} {g h : Callable} {s : Signature} {i : Nat} {m : Memoizer}
  (hg : code.Layers g h s i m) {ask : Callable → Value → Bool} {view : World σ → γ}

include hg

/-- A call whose result is found in the cache, and is wrong. -/
theorem ends_of_found {args args' : Key} (hf : code.UndisturbedBehind s ask i m args view)
    (w : World σ) (hfit : s.argsViolation ask h args' = none) {v : Value} {e : Mismatch}
    (hlookup : (w.cache i).lookup args' = some v) (hviolation : s.resultViolation ask h v = some e) :
    ∃ w', Machine.Ends (fun depth => Machine.call code depth g args') w (.error (.mismatch e)) w' ∧
      view w' = view w := by
  obtain ⟨w₁, hbefore, hends, -⟩ := hg.exists_ends hf.overlooks hf.decides w hfit
  have hlookup₁ : (w₁.cache i).lookup args' = some v := by rwa [hf.holds w₁ w hbefore]
  obtain ⟨w', hcall, hafter⟩ := hends _ _ (Machine.ends_hit hg.memoizer hg.memoized hlookup₁)
  rw [s.released_enforce ask h hviolation] at hcall
  refine ⟨w', hcall, ?_⟩
  rw [hafter, World.view_hitting hf.overlooks.calls hf.notes, hbefore]

/-- A wrong result in the cache is refused until a step of the cache does not spare it. -/
theorem refuses_of_lookup {args : Key} (hf : code.UndisturbedBehind s ask i m args view) (w : World σ)
    (hc : (w.cache i).WellFormed m.policy) {v : Value} {e : Mismatch}
    (hlookup : (w.cache i).lookup args = some v) (hviolation : s.resultViolation ask h v = some e) :
    w.Refuses code g h s ask i m args e := by
  intro w₁ more args' hevolves hmore hspared hequal hfit
  obtain ⟨steps, hsteps, htrace⟩ := hevolves.traced m hg.memoizer
  obtain rfl : steps = more := List.append_cancel_left (hsteps.symm.trans hmore)
  have hkept : (w₁.cache i).lookup args' = some v := by
    rw [← Cache.lookup_congr _ hequal, htrace.lookup_of_spares hc args hspared, hlookup]
  obtain ⟨w₂, hends, hsame⟩ := ends_of_found hg hf w₁ hfit hkept hviolation
  exact ⟨w₂, hends, hf.holds w₂ w₁ hsame, hf.counts w₂ w₁ hsame⟩

/-- A call that asks the function ends with what the function answers, and the cache is the old one or
has the answer in it. -/
theorem exists_concluded {args : Key} (hf : code.UndisturbedBehind s ask i m args view) (w : World σ)
    (hfit : s.argsViolation ask h args = none) (hlookup : (w.cache i).lookup args = none)
    {outcome : Outcome} (hyields : code.Yields m.function args w outcome) :
    ∃ w₂ w' : World σ, Machine.Ends (fun depth => Machine.call code depth g args) w
        (s.released ask h .enforce outcome) w' ∧
      w₂.cache i = w.cache i ∧ w'.cache i = (w₂.concluding i m args outcome).cache i := by
  obtain ⟨w₁, hbefore, hends, -⟩ := hg.exists_ends hf.overlooks hf.decides w hfit
  have hcache := hf.holds w₁ w hbefore
  have hmissing : view w = view (w₁.missing i m args) := by
    rw [World.view_missing hf.overlooks.calls hf.notes, hbefore]
  obtain ⟨depth, w₂, hcall⟩ := hf.determined _ _ outcome hmissing hyields
  have hapart : w₂.cache i = w₁.cache i := hf.apart depth (w₁.missing i m args) outcome w₂ hcall
  have hmissed := Machine.ends_missed hg.memoizer hg.memoized (by rwa [hcache])
    (Machine.ends_of_call code hcall)
  obtain ⟨w', hreleased, hafter⟩ := hends outcome _ hmissed
  have hcache' : w'.cache i = ((w₂.concluding i m args outcome).withActive w₁.active).cache i :=
    hf.holds _ _ hafter
  exact ⟨w₂, w', hreleased, hapart.trans hcache, hcache'⟩

end Undisturbed

/-- Every way in which a call under an enforced contract around a memoizer can fail leaves the cache in
order, whatever was in it. -/
theorem failing_call_keeps_cache (code : Code σ) (g h : Callable) (s : Signature) (i : Nat)
    (m : Memoizer) (hg : code.Layers g h s i m) (ask : Callable → Value → Bool) (args : Key)
    (view : World σ → γ) (hf : code.UndisturbedBehind s ask i m args view) (w : World σ)
    (hc : (w.cache i).WellFormed m.policy) : w.FailsCleanly code g h s ask i m args := by
  constructor
  · intro e hviolation
    obtain ⟨w', hends, hsame, -⟩ :=
      Machine.ends_stopped hf.overlooks hf.decides h .enforce args w e hviolation
    exact ⟨w', hg.ends_call hends, hf.holds w' w hsame, hf.counts w' w hsame⟩
  · intro hfit hlookup e hyields
    obtain ⟨w₂, w', hends, hkept, hcache⟩ := exists_concluded hg hf w hfit hlookup hyields
    exact ⟨w', hends, hcache.trans hkept⟩
  · intro hfit hlookup v e hyields hviolation
    obtain ⟨w₂, w', hends, hkept, hcache⟩ := exists_concluded hg hf w hfit hlookup hyields
    rw [s.released_enforce ask h hviolation] at hends
    have hstored : w'.cache i = ((w.cache i).store m.policy args v).cache := by
      rw [hcache, World.concluding, World.cache_storeIn, World.cache_note, hkept]
    have hfound : (w'.cache i).lookup args = some v := by
      rw [hstored, Cache.lookup_store_self]
    have hc' : (w'.cache i).WellFormed m.policy :=
      hstored ▸ Cache.wellFormed_store m.policy (w.cache i) args v hc
    exact ⟨w', hends, hstored, hfound, refuses_of_lookup hg hf w' hc' hfound hviolation⟩
  · intro hfit v e hlookup hviolation
    obtain ⟨w', hends, hsame⟩ := ends_of_found hg hf w hfit hlookup hviolation
    have hcache := hf.holds w' w hsame
    have hfound : (w'.cache i).lookup args = some v := by rwa [hcache]
    have hc' : (w'.cache i).WellFormed m.policy := by rwa [hcache]
    exact ⟨w', hends, hcache, hf.counts w' w hsame, refuses_of_lookup hg hf w' hc' hfound hviolation⟩

/-- A result of the wrong kind, of which the cache has none yet. -/
theorem failing_call_keeps_cache_null :
    let f : Callable := ⟨"first", ["x"], 0⟩
    let q : Callable := ⟨"echo", ["x"], 1⟩
    let echo : Body Unit := .program fun args => pure (.ok (args.headD .undefined))
    let s : Signature := ⟨[(0, [.predicate q])], [.native .bool], List.pairwise_singleton _ _⟩
    let m : Memoizer := ⟨f, .bounded 1 Nat.one_pos⟩
    let code : Code Unit :=
      ⟨#[echo, echo, .memoized 0, .validated ⟨⟨"first", ["x"], 2⟩, s, .enforce⟩], #[m]⟩
    let ask : Callable → Value → Bool := fun _ v => v.same v
    let h : Callable := ⟨"first", ["x"], 2⟩
    let w : World Unit := World.storeIn (World.start ()) 0 m [.bool true] (.bool true)
    s.argsViolation ask h [.null] = none ∧ (w.cache 0).lookup [.null] = none ∧
      code.Yields f [.null] w (.ok .null) ∧ (s.resultViolation ask h .null).isSome ∧
      w.FailsCleanly code ⟨"first", ["x"], 3⟩ h s ask 0 m [.null] := by
  intro f q echo s m code ask h w
  let view : World Unit → Cache × List Key := fun w => (w.cache 0, w.executions f.body)
  have hstill (w : World Unit) (event : Event) (h : Entry.startOf 0 ⟨event, w.active⟩ = none) :
      view (w.record event) = view w := by
    simp [view, f, World.executions_record, h]
  have hg : code.Layers ⟨"first", ["x"], 3⟩ h s 0 m := ⟨rfl, rfl, rfl⟩
  have hanswer {depth : Nat} {w w' : World Unit} {outcome : Outcome}
      (hrun : Machine.call code depth f [.null] w = some (outcome, w')) :
      outcome = .ok .null ∧ w'.cache 0 = w.cache 0 := by
    obtain ⟨inner, rfl⟩ := Machine.exists_depth_of_call _ _ _ _ _ _ hrun
    obtain ⟨rfl, rfl⟩ := Prod.mk.inj (Option.some.inj hrun)
    exact ⟨rfl, rfl⟩
  have hf : code.UndisturbedBehind s ask 0 m [.null] view := by
    constructor
    · constructor
      · exact ⟨fun _ _ => rfl, fun w e => hstill w _ rfl⟩
      · intro p hp v
        obtain rfl : p = q := by simpa [Signature.Mentions, Spec.predicates, s] using hp
        have hechoed : Machine.Settled view (fun depth => Machine.call code depth q [v]) (.ok v) :=
          Machine.settled_call_done rfl rfl fun w => hstill w _ rfl
        exact Machine.settled_deepPasses (fun w _ => hstill w _ rfl) hechoed
      · rintro w w' outcome - ⟨depth, w₁, hrun⟩
        obtain ⟨rfl, -⟩ := hanswer hrun
        exact ⟨1, _, rfl⟩
      · exact fun w w' hview => (Prod.mk.inj hview).2
    · exact fun w w' hview => (Prod.mk.inj hview).1
    · exact fun w step => hstill w _ rfl
    · exact fun depth w outcome w' hrun => (hanswer hrun).2
  have hc : (w.cache 0).WellFormed m.policy := by
    rw [World.cache_storeIn]
    exact Cache.wellFormed_store m.policy _ _ _ (Cache.wellFormed_empty m.policy)
  exact ⟨by decide +kernel, by decide +kernel, ⟨1, _, rfl⟩, by decide +kernel,
    failing_call_keeps_cache code _ h s 0 m hg ask [.null] view hf w hc⟩

end RuntimeContracts
