import RuntimeContracts.Proofs.Cache.Executions
import RuntimeContracts.Proofs.Cache.Latest
import RuntimeContracts.Proofs.Machine.Requests

/-!
An unbounded memoizer executes its callable once for each key. A value stays under its key until the
next clear, so that no execution for the key starts in between; and unless executions for equal keys
overlap, no second one of them succeeds. Failures leave nothing behind.
-/
namespace RuntimeContracts

open Executions

def CacheStep.succeeds (key : Key) : CacheStep → Bool
  | .answered k (.ok _) => Value.beqItems k key
  | _ => false

def overlapping (key : Key) (steps : List CacheStep) : Nat :=
  (running [] steps).countP fun k => Value.beqItems k key

/-- What holds of the history of an unbounded memoizer. -/
structure OncePerKey (steps : List CacheStep) : Prop where
  /-- A value that the callable returns is stored at once. -/
  stores : ∀ done key v rest, steps = done ++ .answered key (.ok v) :: rest →
    ∃ isNew, [.stored key v isNew] <+: rest
  /-- Until the next clear, a call with an equal key answers the value stored last. -/
  hits : ∀ done key v isNew mid args rest,
    steps = done ++ .stored key v isNew :: (mid ++ .called args :: rest) →
      Value.beqItems key args → (∀ s ∈ mid, s.clears = false) →
        ∃ u, latest args (done ++ .stored key v isNew :: mid) = some u ∧ [.hit args u] <+: rest
  /-- Executions start only while nothing is stored under the key. -/
  starts : ∀ done args rest, steps = done ++ .missed args :: rest → latest args done = none
  /-- And then every call starts one, whatever has failed before. -/
  retries : ∀ done args rest, steps = done ++ .called args :: rest → latest args done = none →
    [.missed args] <+: rest
  /-- In a stretch without clears, in which no execution for the key starts during another one, at most
  one succeeds. -/
  once : ∀ key done mid rest, steps = done ++ (mid ++ rest) → (∀ s ∈ mid, s.clears = false) →
    overlapping key done ≤ 1 →
      (∀ before k after, mid = before ++ .missed k :: after → Value.beqItems k key →
        overlapping key (done ++ before) = 0) →
        mid.countP (CacheStep.succeeds key) ≤ 1

/-- The journal tells what a call of the memoizer from one world to the other returned: the value that it
hit, or the answer of the execution that it started. -/
def World.Recounts {σ : Type} (w w' : World σ) (i : Nat) (args : Key) (outcome : Outcome) : Prop :=
  (∃ v, outcome = .ok v ∧ w'.steps i = w.steps i ++ [.called args, .hit args v]) ∨
    ∃ inside after, w'.steps i =
      w.steps i ++ .called args :: .missed args :: (inside ++ .answered args outcome :: after)

theorem overlapping_snoc (key : Key) (done : List CacheStep) (s : CacheStep) :
    overlapping key (done ++ [s]) =
      (shift (running [] done) s).countP fun k => Value.beqItems k key := by
  unfold overlapping
  rw [running_append]
  rfl

theorem overlapping_missed (key k : Key) (done : List CacheStep) :
    overlapping key (done ++ [.missed k]) =
      overlapping key done + if Value.beqItems k key then 1 else 0 := by
  rw [overlapping_snoc]
  exact List.countP_cons

/-- With the answer the innermost execution is over. -/
theorem overlapping_answered (key k : Key) (outcome : Outcome) (done : List CacheStep)
    (htop : (running [] done).head? = some k) :
    overlapping key done =
      overlapping key (done ++ [.answered k outcome]) + if Value.beqItems k key then 1 else 0 := by
  obtain ⟨outer, hstack⟩ := List.head?_eq_some_iff.mp htop
  rw [overlapping_snoc, overlapping, hstack]
  exact List.countP_cons

section History

variable {steps : List CacheStep} (hreplays : Queue.Replays .unbounded [] steps)
  (horderly : Orderly [] steps)

include hreplays horderly

/-- Without a bound nothing is evicted between an answer and its store. -/
theorem stored_of_answered (done : List CacheStep) (key : Key) (v : Value) (rest : List CacheStep)
    (hsplit : steps = done ++ .answered key (.ok v) :: rest) :
    ∃ isNew, [.stored key v isNew] <+: rest := by
  obtain ⟨-, gone, isNew, after, hstored⟩ := horderly.fits done _ rest hsplit
  cases gone with
  | nil => exact ⟨isNew, after, hstored⟩
  | cons k gone =>
    have hevicted : steps = (done ++ [.answered key (.ok v)]) ++ .evicted k ::
        (gone.map CacheStep.evicted ++ [.stored key v isNew] ++ after) := by
      rw [hsplit, ← hstored]
      simp
    have hnone : [] = [k] := (Queue.replays_iff _ _ _).mp hreplays _ _ _ hevicted
    simp at hnone

/-- What a call turns out to be is decided by what was stored last. -/
theorem called_next (done : List CacheStep) (args : Key) (rest : List CacheStep)
    (hsplit : steps = done ++ .called args :: rest) :
    match latest args done with
    | some u => [.hit args u] <+: rest
    | none => [.missed args] <+: rest := by
  have hreports (s : CacheStep) (rest' : List CacheStep) (hrest : [s] ++ rest' = rest) :
      Queue.Reports .unbounded (Queue.replay .unbounded [] (done ++ [.called args])) s := by
    refine (Queue.replays_iff _ _ _).mp hreplays (done ++ [.called args]) s rest' ?_
    rw [hsplit, ← hrest]
    exact List.append_cons ..
  have hlatest := Queue.lookup_replay_unbounded args (done ++ [.called args])
  rw [latest_append] at hlatest
  rcases horderly.fits done _ rest hsplit with ⟨rest', hmissed⟩ | ⟨u, rest', hhit⟩
  · have hnone : latest args done = none := hlatest.symm.trans (hreports _ rest' hmissed)
    rw [hnone]
    exact ⟨rest', hmissed⟩
  · have hsome : latest args done = some u := hlatest.symm.trans (hreports _ rest' hhit)
    rw [hsome]
    exact ⟨rest', hhit⟩

omit horderly in
/-- What misses has not been stored since the last clear. -/
theorem latest_of_missed (done : List CacheStep) (args : Key) (rest : List CacheStep)
    (hsplit : steps = done ++ .missed args :: rest) : latest args done = none := by
  rw [← Queue.lookup_replay_unbounded]
  exact (Queue.replays_iff _ _ _).mp hreplays done _ rest hsplit

/-- While a value is stored under the key and no execution for it is in progress, none starts. -/
theorem overlapping_of_isSome_latest (key : Key) (done : List CacheStep) (s : CacheStep)
    (rest : List CacheStep) (hsplit : steps = done ++ s :: rest) (hidle : overlapping key done = 0)
    (hlatest : (latest key done).isSome) :
    overlapping key (done ++ [s]) = 0 ∧ s.succeeds key = false := by
  have hfits := horderly.fits done s rest hsplit
  cases s with
  | missed k =>
    have hother : Value.beqItems k key = false := by
      apply Bool.eq_false_iff.mpr
      intro hkey
      rw [← latest_congr done hkey, latest_of_missed hreplays done k rest hsplit] at hlatest
      exact Bool.noConfusion hlatest
    rw [overlapping_missed, hidle, hother]
    exact ⟨rfl, rfl⟩
  | answered k outcome =>
    have htop : (running [] done).head? = some k := by
      cases outcome with
      | error e => exact hfits
      | ok v => exact hfits.1
    have hover := overlapping_answered key k outcome done htop
    by_cases hkey : Value.beqItems k key = true
    · rw [hidle, if_pos hkey] at hover
      omega
    · rw [hidle, if_neg hkey] at hover
      have hother : Value.beqItems k key = false := by simpa using hkey
      refine ⟨hover.symm, ?_⟩
      cases outcome with
      | error e => rfl
      | ok v => exact hother
  | _ =>
    rw [overlapping_snoc]
    exact ⟨hidle, rfl⟩

theorem countP_succeeds_of_isSome_latest (key : Key) (mid done rest : List CacheStep)
    (hsplit : steps = done ++ (mid ++ rest)) (hclear : ∀ s ∈ mid, s.clears = false)
    (hidle : overlapping key done = 0) (hlatest : (latest key done).isSome) :
    mid.countP (CacheStep.succeeds key) = 0 := by
  induction mid generalizing done with
  | nil => rfl
  | cons s mid ih =>
    obtain ⟨hnext, hs⟩ :=
      overlapping_of_isSome_latest hreplays horderly key done s (mid ++ rest) hsplit hidle hlatest
    have hkept : (latest key (done ++ [s])).isSome := by
      rw [latest_append]
      refine isSome_foldl_keep key _ [s] hlatest fun t ht => hclear t ?_
      exact List.mem_cons.mpr (Or.inl (List.mem_singleton.mp ht))
    have hsplit' : steps = (done ++ [s]) ++ (mid ++ rest) := hsplit.trans (List.append_cons ..)
    have hmid := ih (done ++ [s]) hsplit' (fun t ht => hclear t (List.mem_cons_of_mem _ ht)) hnext
      hkept
    rw [List.countP_cons, hs, hmid]
    rfl

/-- A success leaves its value under the key, which keeps any other from happening. -/
theorem countP_succeeds_of_answered (key k : Key) (v : Value) (mid done rest : List CacheStep)
    (hsplit : steps = done ++ .answered k (.ok v) :: (mid ++ rest))
    (hclear : ∀ s ∈ mid, s.clears = false) (hkey : Value.beqItems k key)
    (hidle : overlapping key (done ++ [.answered k (.ok v)]) = 0) :
    mid.countP (CacheStep.succeeds key) = 0 := by
  obtain ⟨isNew, after, hstored⟩ :=
    stored_of_answered hreplays horderly done k v (mid ++ rest) hsplit
  cases mid with
  | nil => rfl
  | cons t mid =>
    obtain ⟨rfl, -⟩ := List.cons.inj hstored
    let both : List CacheStep := [.answered k (.ok v), .stored k v isNew]
    have hidle' : overlapping key (done ++ both) = 0 := by
      unfold overlapping at hidle ⊢
      rw [running_append] at hidle ⊢
      exact hidle
    have hlatest : (latest key (done ++ both)).isSome := by
      rw [latest_append]
      simp [both, CacheStep.keep, hkey]
    have hsplit' : steps = (done ++ both) ++ (mid ++ rest) := by
      rw [hsplit, List.append_assoc]
      rfl
    have hmid := countP_succeeds_of_isSome_latest hreplays horderly key mid (done ++ both) rest
      hsplit' (fun u hu => hclear u (List.mem_cons_of_mem _ hu)) hidle' hlatest
    rwa [List.countP_cons_of_neg (by simp [CacheStep.succeeds])]

/-- While no execution for the key overlaps another one, at most one succeeds before the next clear. -/
theorem countP_succeeds_le_one (key : Key) (mid done rest : List CacheStep)
    (hsplit : steps = done ++ (mid ++ rest)) (hclear : ∀ s ∈ mid, s.clears = false)
    (hone : overlapping key done ≤ 1)
    (halone : ∀ before k after, mid = before ++ .missed k :: after → Value.beqItems k key →
      overlapping key (done ++ before) = 0) :
    mid.countP (CacheStep.succeeds key) ≤ 1 := by
  induction mid generalizing done with
  | nil => exact Nat.zero_le 1
  | cons s mid ih =>
    have hfits := horderly.fits done s (mid ++ rest) hsplit
    have hsplit' : steps = (done ++ [s]) ++ (mid ++ rest) := hsplit.trans (List.append_cons ..)
    have hclear' : ∀ t ∈ mid, t.clears = false := fun t ht => hclear t (List.mem_cons_of_mem _ ht)
    have hmid (hnext : overlapping key (done ++ [s]) ≤ 1) :
        mid.countP (CacheStep.succeeds key) ≤ 1 := by
      apply ih (done ++ [s]) hsplit' hclear' hnext
      intro before k after hmid hk
      rw [List.append_assoc]
      exact halone (s :: before) k after (by rw [hmid]; rfl) hk
    cases s with
    | missed k =>
      rw [List.countP_cons_of_neg (by simp [CacheStep.succeeds])]
      apply hmid
      rw [overlapping_missed]
      split
      · rename_i hkey
        have hnone := halone [] k mid rfl hkey
        rw [List.append_nil] at hnone
        omega
      · exact hone
    | answered k outcome =>
      cases outcome with
      | error e =>
        rw [List.countP_cons_of_neg (by simp [CacheStep.succeeds])]
        have hover := overlapping_answered key k (.error e) done hfits
        exact hmid (by omega)
      | ok v =>
        have hover := overlapping_answered key k (.ok v) done hfits.1
        by_cases hkey : Value.beqItems k key = true
        · rw [if_pos hkey] at hover
          have hnone := countP_succeeds_of_answered hreplays horderly key k v mid done rest hsplit
            hclear' hkey (by omega)
          rw [List.countP_cons, hnone]
          split <;> omega
        · rw [if_neg hkey] at hover
          rw [List.countP_cons_of_neg (by exact hkey)]
          exact hmid (by omega)
    | _ =>
      rw [List.countP_cons_of_neg (by simp [CacheStep.succeeds])]
      apply hmid
      rw [overlapping_snoc]
      exact hone

theorem oncePerKey_of_replays : OncePerKey steps where
  stores done key v rest hsplit := stored_of_answered hreplays horderly done key v rest hsplit
  hits done key v isNew mid args rest hsplit hkey hclear := by
    have hsome := isSome_latest_of_stored done mid key args v isNew hkey hclear
    obtain ⟨u, hu⟩ := Option.isSome_iff_exists.mp hsome
    have hnext := called_next hreplays horderly (done ++ .stored key v isNew :: mid) args rest
      (by rw [hsplit, List.append_assoc]; rfl)
    rw [hu] at hnext
    exact ⟨u, hu, hnext⟩
  starts done args rest hsplit := latest_of_missed hreplays done args rest hsplit
  retries done args rest hsplit hlatest := by
    have hnext := called_next hreplays horderly done args rest hsplit
    rwa [hlatest] at hnext
  once key done mid rest hsplit hclear hone halone :=
    countP_succeeds_le_one hreplays horderly key mid done rest hsplit hclear hone halone

end History

/-- A call has hit the value that it returns, or has started the execution that has answered it. -/
theorem recounts_callMemoized {σ : Type} (code : Code σ) (i : Nat) (m : Memoizer)
    (hm : code.memoizers[i]? = some m) (depth : Nat) (args : Key) (w w' : World σ)
    (outcome : Outcome)
    (hrun : Machine.callMemoized code (Machine.call code depth) i args w = some (outcome, w')) :
    w.Recounts w' i args outcome := by
  have hcall := Machine.evolving_call code i depth
  rcases Machine.callMemoized_cases code i hcall m hm args w w' outcome hrun with
    ⟨v, -, rfl, rfl⟩ | ⟨-, w₁, inside, -, hsteps, -, rfl⟩
  · exact Or.inl ⟨v, rfl, by simp [World.hitting]⟩
  · exact Or.inr ⟨inside, (w₁.cache i).closing m.policy args outcome,
      by simp [World.steps_concluding, hsteps]⟩

/-- An unbounded memoizer executes its callable at most once with success for each key and stretch without clears,
up to every moment of every run; and at every moment a call, by a handle or not, answers what was stored last or
else asks the callable. Every call returns what the journal tells of it. -/
theorem unbounded_memo_executes_once {σ : Type} (e : Engine σ) (he : e.Reachable) (i : Nat) (m : Memoizer)
    (hm : e.code.memoizers[i]? = some m) (hpolicy : m.policy = .unbounded) :
    (∀ w, e.world.Underway e.code w →
      OncePerKey (w.steps i) ∧ w.Serves e.code i m fun args => latest args (w.steps i)) ∧
    (∀ (depth : Nat) (args : Key) (w w' : World σ) (outcome : Outcome),
      Machine.callMemoized e.code (Machine.call e.code depth) i args w = some (outcome, w') →
        w.Recounts w' i args outcome) ∧
    ∀ f : Callable, e.code.bodies[f.body]? = some (.memoized i) →
      ∀ (depth : Nat) (args : Key) (w w' : World σ) (outcome : Outcome),
        Machine.call e.code depth f args w = some (outcome, w') → w.Recounts w' i args outcome := by
  refine ⟨fun w hw => ?_, recounts_callMemoized e.code i m hm, fun f hf depth args w w' outcome hrun => ?_⟩
  · have htrace := he.openTrace hm hw
    rw [hpolicy] at htrace
    have hempty := Cache.wellFormed_empty .unbounded
    obtain ⟨hreplays, hqueue⟩ := htrace.replays hempty
    have hlatest : (w.cache i).lookup = fun args => latest args (w.steps i) := by
      funext args
      rw [Cache.lookup_eq .unbounded _ (htrace.wellFormed hempty), ← hqueue]
      exact Queue.lookup_replay_unbounded args (w.steps i)
    rw [← hlatest]
    exact ⟨oncePerKey_of_replays hreplays (orderly_of_openTrace htrace []), World.serves hm w⟩
  · obtain ⟨inner, rfl⟩ := Machine.exists_depth_of_call e.code args w depth f _ hrun
    rw [Machine.call_memoized e.code i args inner f hf] at hrun
    exact recounts_callMemoized e.code i m hm inner args w w' outcome hrun

def flaky : Key → Program Nat Outcome := fun args => do
  let n ← Program.read
  Program.write (n + 1)
  if n = 0 then pure (.error (.custom "not yet"))
  else match args with
    | [.bool true] => Program.call ⟨"flaky", ["x"], 1⟩ [.null]
    | _ => pure (.ok .null)

/-- A callable that fails once is asked again and then answers. Inside of another call it has been called with the
same key through a function made from the memoizer, and was not executed a third time; nor will it be. -/
theorem unbounded_memo_executes_once_after_failure :
    ∃ (e : Engine Nat) (m : Memoizer) (outcome : Outcome) (w : World Nat), e.Reachable ∧
      e.code.memoizers[0]? = some m ∧ m.policy = .unbounded ∧ e.code.bodies[1]? = some (.memoized 0) ∧
      Machine.call e.code 2 m.function [.bool true] (e.world.missing 0 m [.bool true]) = some (outcome, w) ∧
      e.world.Underway e.code w ∧ (w.steps 0).length = 11 ∧ w.client = 3 ∧ OncePerKey (w.steps 0) ∧
      ∃ v, Machine.call e.code 1 ⟨"flaky", ["x"], 1⟩ [.null] w = some (.ok v, w.hitting 0 m [.null] v) := by
  let m : Memoizer := ⟨⟨"flaky", ["x"], 0⟩, .unbounded⟩
  let code : Code Nat := ⟨#[.program flaky, .memoized 0], #[m]⟩
  let p : Program Nat Outcome := do
    let _ ← Program.callMemoized 0 [.null]
    Program.callMemoized 0 [.null]
  have hchecked : ((Machine.runProgram code (Machine.call code 1) p (World.start 0)).bind fun r =>
      (Machine.call code 2 m.function [.bool true] (r.2.missing 0 m [.bool true])).map fun r' =>
        ((r.2.cache 0).lookup [.bool true] |>.isNone, (r'.2.steps 0).length, r'.2.client,
          (latest [.null] (r'.2.steps 0)).isSome)) = some (true, 11, 3, true) := by decide +kernel
  obtain ⟨⟨a, before⟩, hbefore, hinside⟩ := Option.bind_eq_some_iff.mp hchecked
  obtain ⟨⟨outcome, w⟩, hrun, hw⟩ := Option.map_eq_some_iff.mp hinside
  simp only [Prod.mk.injEq] at hw
  obtain ⟨hnone, hlength, hclient, hsome⟩ := hw
  obtain ⟨v, hv⟩ := Option.isSome_iff_exists.mp hsome
  have hdefined := Engine.Reachable.define (.start 0) "flaky" ["x"] (.program flaky)
  have hmade := Engine.Reachable.define (hdefined.defineMemoizer m) "flaky" ["x"] (.memoized 0)
  have hreachable : Engine.Reachable ⟨code, before⟩ := .run hmade p 1 a before hbefore
  have hcode : code.memoizers[0]? = some m := rfl
  have hunderway : before.Underway code w :=
    .missed hcode [.bool true] (Option.isNone_iff_eq_none.mp hnone)
      (.after (Machine.courses_call code 2 _ _ _ outcome w hrun) (.here w))
  obtain ⟨hmoments, -, -⟩ := unbounded_memo_executes_once _ hreachable 0 m hcode rfl
  obtain ⟨honce, hserves⟩ := hmoments w hunderway
  refine ⟨_, m, outcome, w, hreachable, hcode, rfl, rfl, hrun, hunderway, hlength, hclient, honce, v, ?_⟩
  rw [hserves.handled _ rfl, hserves.hit _ _ v hv]

end RuntimeContracts
