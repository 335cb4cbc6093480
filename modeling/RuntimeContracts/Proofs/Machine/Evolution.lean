import RuntimeContracts.Proofs.Machine.Course

/-!
How the cache of a memoizer evolves. Whatever course a run takes, to one memoizer it does a trace: the steps
that it adds to the journal are the steps that changed the cache, in their order and with every call
closed. Memoizers that the code does not have are never touched.
-/
namespace RuntimeContracts

variable {σ α : Type}

/-- The journal has grown by a trace of the cache of memoizer `i`. -/
structure World.Evolves (code : Code σ) (i : Nat) (w w' : World σ) : Prop where
  traced : ∀ m, code.memoizers[i]? = some m →
    ∃ steps, w'.steps i = w.steps i ++ steps ∧ Trace m.policy (w.cache i) steps (w'.cache i)
  untouched : code.memoizers[i]? = none → w'.steps i = w.steps i ∧ w'.cache i = w.cache i
  grown : w.journal <:+ w'.journal

namespace World

variable {code : Code σ} {i : Nat} {w w₁ w₂ : World σ}

theorem evolves_of_still (hsteps : w₁.steps i = w.steps i) (hcache : w₁.cache i = w.cache i)
    (hgrown : w.journal <:+ w₁.journal) : w.Evolves code i w₁ where
  traced m _ := by
    refine ⟨[], ?_, ?_⟩
    · rw [hsteps, List.append_nil]
    · rw [hcache]
      exact Trace.nil (w.cache i)
  untouched _ := ⟨hsteps, hcache⟩
  grown := hgrown

theorem Evolves.trans (h : w.Evolves code i w₁) (h' : w₁.Evolves code i w₂) :
    w.Evolves code i w₂ where
  traced m hm := by
    obtain ⟨steps, hsteps, htrace⟩ := h.traced m hm
    obtain ⟨steps', hsteps', htrace'⟩ := h'.traced m hm
    refine ⟨steps ++ steps', ?_, htrace.append htrace'⟩
    rw [hsteps', hsteps, List.append_assoc]
  untouched hm := by
    obtain ⟨hsteps, hcache⟩ := h.untouched hm
    obtain ⟨hsteps', hcache'⟩ := h'.untouched hm
    exact ⟨hsteps'.trans hsteps, hcache'.trans hcache⟩
  grown := h.grown.trans h'.grown

theorem evolves_of_trace {m : Memoizer} {steps : List CacheStep} (hm : code.memoizers[i]? = some m)
    (hsteps : w₁.steps i = w.steps i ++ steps)
    (htrace : Trace m.policy (w.cache i) steps (w₁.cache i)) (hgrown : w.journal <:+ w₁.journal) :
    w.Evolves code i w₁ where
  traced m' hm' := by
    obtain rfl : m = m' := Option.some.inj (hm.symm.trans hm')
    exact ⟨steps, hsteps, htrace⟩
  untouched hm' := absurd (hm.symm.trans hm') (by simp)
  grown := hgrown

/-- A step that leaves its cache as it is evolves every memoizer. -/
theorem evolves_note {j : Nat} {m : Memoizer} {step : CacheStep}
    (hm : code.memoizers[j]? = some m) (htrace : Trace m.policy (w.cache j) [step] (w.cache j)) :
    w.Evolves code i (w.note j m step) := by
  by_cases hj : j = i
  · subst j
    exact evolves_of_trace hm (steps_note w i m step) htrace (journal_note w i m step)
  · exact evolves_of_still (steps_note_of_ne w i j m step hj) rfl (journal_note w j m step)

theorem evolves_of_aside {event : Event} (h : event.isAside) : w.Evolves code i (w.record event) := by
  refine evolves_of_still ?_ rfl (List.suffix_cons _ _)
  rw [steps_record]
  cases event with
  | cache j name step => cases h
  | _ => exact List.append_nil _

variable {j : Nat} {m : Memoizer}

theorem evolves_cleared (hm : code.memoizers[j]? = some m) :
    w.Evolves code i ((w.setCache j Cache.empty).note j m (.cleared (w.cache j).size)) := by
  have hgrown := journal_note (w.setCache j Cache.empty) j m (.cleared (w.cache j).size)
  by_cases hj : j = i
  · subst j
    refine evolves_of_trace hm (steps_note _ i m _) ?_ hgrown
    rw [cache_note, cache_setCache]
    exact Trace.cleared (w.cache i)
  · refine evolves_of_still (steps_note_of_ne _ i j m _ hj) ?_ hgrown
    rw [cache_note, cache_setCache_of_ne w i j _ hj]

theorem evolves_stored (hm : code.memoizers[j]? = some m) (args : Key) (v : Value) :
    w.Evolves code i (w.storeIn j m args v) := by
  have hgrown := journal_storeIn w j m args v
  by_cases hj : j = i
  · subst j
    refine evolves_of_trace hm (steps_storeIn w i m args v) ?_ hgrown
    rw [cache_storeIn]
    exact Trace.stored (w.cache i) args v
  · exact evolves_of_still (steps_storeIn_of_ne w i j m args v hj)
      (cache_storeIn_of_ne w i j m args v hj) hgrown

/-- A call that finds its result leaves the cache alone. -/
theorem evolves_hit (hm : code.memoizers[j]? = some m) (args : Key) (v : Value)
    (hfound : (w.cache j).lookup args = some v) : w.Evolves code i (w.hitting j m args v) := by
  have hgrown := journal_hitting w j m args v
  by_cases hj : j = i
  · subst j
    refine evolves_of_trace hm ?_ (Trace.hit (w.cache i) args v hfound) hgrown
    simp [hitting]
  · exact evolves_of_still (by simp [hitting, steps_note_of_ne, hj]) rfl hgrown

/-- A bracket of memoizer `i` itself, around a trace. -/
theorem evolves_missed_self (hm : code.memoizers[i]? = some m) (args : Key) (outcome : Outcome)
    (hnone : (w.cache i).lookup args = none) (hinside : (w.missing i m args).Evolves code i w₁) :
    w.Evolves code i ((w₁.concluding i m args outcome).withActive w.active) := by
  have hgrown := ((journal_missing w i m args).trans hinside.grown).trans
    (journal_concluding w₁ i m args outcome)
  obtain ⟨steps, hsteps, htrace⟩ := hinside.traced m hm
  have hsteps' : w₁.steps i = w.steps i ++ .called args :: .missed args :: steps := by
    simpa [missing] using hsteps
  cases outcome with
  | error e =>
    refine evolves_of_trace hm ?_ (Trace.failed args e hnone htrace) hgrown
    simp [concluding, hsteps']
  | ok v =>
    have hbracket := Trace.succeeded args v hnone htrace
    refine evolves_of_trace hm ?_ (by simpa [concluding] using hbracket) hgrown
    simp [concluding, hsteps']

/-- A bracket of another memoizer does to memoizer `i` what is inside of it. -/
theorem evolves_missed_of_ne (hj : j ≠ i) (args : Key) (outcome : Outcome)
    (hinside : (w.missing j m args).Evolves code i w₁) :
    w.Evolves code i ((w₁.concluding j m args outcome).withActive w.active) := by
  have hbefore : w.Evolves code i (w.missing j m args) :=
    evolves_of_still (by simp [missing, steps_note_of_ne, hj]) rfl (journal_missing w j m args)
  refine (hbefore.trans hinside).trans ?_
  have hgrown := journal_concluding w₁ j m args outcome
  cases outcome with
  | error e => exact evolves_of_still (by simp [concluding, steps_note_of_ne, hj]) rfl hgrown
  | ok v =>
    refine evolves_of_still ?_ ?_ hgrown
    · simp [concluding, steps_storeIn_of_ne, steps_note_of_ne, hj]
    · simp [concluding, cache_storeIn_of_ne, hj]

/-- Every course does a trace to every memoizer. -/
theorem Course.evolves (h : Course code w w₁) (i : Nat) : w.Evolves code i w₁ := by
  induction h with
  | refl w => exact evolves_of_still rfl rfl List.suffix_rfl
  | trans _ _ ih ih' => exact ih.trans ih'
  | within _ _ ih => exact ⟨ih.traced, ih.untouched, ih.grown⟩
  | recorded w event h => exact evolves_of_aside h
  | wrote w s => exact evolves_of_still rfl rfl List.suffix_rfl
  | fresh w => exact evolves_of_still rfl rfl List.suffix_rfl
  | @looked w j m hm args => exact evolves_note hm (Trace.looked (w.cache j) args)
  | @measured w j m hm => exact evolves_note hm (Trace.measured (w.cache j))
  | cleared w hm => exact evolves_cleared hm
  | stored w hm args v => exact evolves_stored hm args v
  | hit w hm args v hfound => exact evolves_hit hm args v hfound
  | @missed w w₁ j m hm args outcome hnone _ ih =>
    by_cases hj : j = i
    · subst j
      exact evolves_missed_self hm args outcome hnone ih
    · exact evolves_missed_of_ne hj args outcome ih

end World

namespace Machine

def Evolving (code : Code σ) (i : Nat) (act : Machine σ α) : Prop :=
  ∀ w a w', act w = some (a, w') → w.Evolves code i w'

variable (code : Code σ) (i : Nat)

/-- Every call does a trace to every memoizer, however deep it goes. -/
theorem evolving_call (depth : Nat) (f : Callable) (args : Key) :
    Evolving code i (call code depth f args) :=
  fun w a w' hrun => (courses_call code depth f args w a w' hrun).evolves i

theorem evolving_runProgram (depth : Nat) (p : Program σ α) :
    Evolving code i (runProgram code (call code depth) p) :=
  fun w a w' hrun => (courses_runProgram code depth p w a w' hrun).evolves i

/-- A call of the memoizer has found its result, or its callable has taken the trace along. -/
theorem callMemoized_cases {call : Caller σ} (hcall : ∀ f args, Evolving code i (call f args))
    (m : Memoizer) (hm : code.memoizers[i]? = some m) (args : Key) (w w' : World σ) (outcome : Outcome)
    (hrun : callMemoized code call i args w = some (outcome, w')) :
    (∃ v, (w.cache i).lookup args = some v ∧ outcome = .ok v ∧ w' = w.hitting i m args v) ∨
      (w.cache i).lookup args = none ∧ ∃ w₁ steps,
        call m.function args (w.missing i m args) = some (outcome, w₁) ∧
        w₁.steps i = w.steps i ++ .called args :: .missed args :: steps ∧
        Trace m.policy (w.cache i) steps (w₁.cache i) ∧
        w' = (w₁.concluding i m args outcome).withActive w.active := by
  rw [callMemoized_eq code call i m args w hm] at hrun
  cases hlookup : (w.cache i).lookup args with
  | some v =>
    rw [hlookup] at hrun
    obtain ⟨rfl, rfl⟩ := Prod.mk.inj (Option.some.inj hrun)
    exact Or.inl ⟨v, rfl, rfl, rfl⟩
  | none =>
    rw [hlookup] at hrun
    obtain ⟨⟨answer, w₁⟩, hcalled, hr⟩ := Option.map_eq_some_iff.mp hrun
    obtain ⟨rfl, rfl⟩ := Prod.mk.inj hr
    obtain ⟨steps, hsteps, htrace⟩ := (hcall m.function args _ _ _ hcalled).traced m hm
    have hsteps' : w₁.steps i = w.steps i ++ .called args :: .missed args :: steps := by
      simpa [World.missing] using hsteps
    exact Or.inr ⟨rfl, w₁, steps, hcalled, hsteps', htrace, rfl⟩

end Machine

end RuntimeContracts
