import RuntimeContracts.Proofs.Machine.Requests

/-!
Memo caches are first-in first-out queues. Every answer that the cache of a memoizer has ever given, to
whatever handle and in the middle of whatever call, is the answer of one list of pairs; and whatever the
next step is, the cache and that list take it together.
-/
namespace RuntimeContracts

def CacheStep.keepsKeys : CacheStep → Bool
  | .stored _ _ isNew => !isNew
  | .cleared _ => false
  | _ => true

/-- The cache answers as the queue does, and evicts in its order. -/
structure Cache.Shows (policy : CachePolicy) (c : Cache) (q : Queue) : Prop where
  lookup : ∀ key, c.lookup key = Queue.lookup q key
  size : c.size = q.length
  order : c.queue = if policy.capacity?.isSome then Queue.keys q else []

theorem Cache.WellFormed.shows {policy : CachePolicy} {c : Cache} (hc : c.WellFormed policy) :
    c.Shows policy c.toQueue where
  lookup key := lookup_eq policy c hc key
  size := c.size_eq
  order := hc.order

namespace Queue

variable (policy : CachePolicy)

/-- What holds of the queue at every moment of a history, `done` being the steps up to there. -/
structure FirstInFirstOut (steps : List CacheStep) : Prop where
  /-- Every step reported the truth about the queue. -/
  reports : ∀ done s rest, steps = done ++ s :: rest → Reports policy (replay policy [] done) s
  distinct : ∀ done, done <+: steps → Distinct (replay policy [] done)
  within : ∀ done, done <+: steps → ∀ capacity, policy.capacity? = some capacity →
    (replay policy [] done).length ≤ capacity
  /-- The newest key is there, at the end, until there is a newer one. -/
  newest : ∀ done key v mid, done ++ .stored key v true :: mid <+: steps →
    (∀ s ∈ mid, s.keepsKeys) →
      (keys (replay policy [] (done ++ .stored key v true :: mid))).getLast? = some key
  /-- Hits and overwrites, however many, leave the order of eviction. -/
  order : ∀ done mid, done ++ mid <+: steps → (∀ s ∈ mid, s.keepsKeys) →
    keys (replay policy [] (done ++ mid)) = keys (replay policy [] done)

theorem distinct_after (q : Queue) (s : CacheStep) (hq : Distinct q) :
    Distinct (after policy q s) := by
  cases s with
  | stored key v isNew => exact distinct_store policy q hq key v
  | cleared n => exact List.Pairwise.nil
  | _ => exact hq

theorem length_after_le (q : Queue) (s : CacheStep) (capacity : Nat)
    (hpolicy : policy.capacity? = some capacity) (hq : q.length ≤ capacity) :
    (after policy q s).length ≤ capacity := by
  cases s with
  | stored key v isNew => exact length_store_le policy q key v capacity hpolicy hq
  | cleared n => exact Nat.zero_le capacity
  | _ => exact hq

theorem distinct_replay (q : Queue) (steps : List CacheStep) (hq : Distinct q) :
    Distinct (replay policy q steps) := by
  induction steps generalizing q with
  | nil => exact hq
  | cons s rest ih => exact ih (after policy q s) (distinct_after policy q s hq)

theorem length_replay_le (q : Queue) (steps : List CacheStep) (capacity : Nat)
    (hpolicy : policy.capacity? = some capacity) (hq : q.length ≤ capacity) :
    (replay policy q steps).length ≤ capacity := by
  induction steps generalizing q with
  | nil => exact hq
  | cons s rest ih =>
    exact ih (after policy q s) (length_after_le policy q s capacity hpolicy hq)

/-- Hits and overwrites move no key. -/
theorem keys_after_of_keepsKeys (q : Queue) (s : CacheStep) (hs : Reports policy q s)
    (hkeeps : s.keepsKeys) : keys (after policy q s) = keys q := by
  cases s with
  | stored key v isNew =>
    have hold : isNew = false := by simpa [CacheStep.keepsKeys] using hkeeps
    have hfound : (lookup q key).isSome := by
      have hnew : isNew = (lookup q key).isNone := hs
      rw [hold] at hnew
      rw [← Option.not_isNone, ← hnew]
      rfl
    simp only [after, store, hfound, if_true]
    exact keys_replace q key v
  | cleared n => simp [CacheStep.keepsKeys] at hkeeps
  | _ => rfl

theorem keys_replay_of_keepsKeys (q : Queue) (steps : List CacheStep)
    (hsteps : Replays policy q steps) (hkeeps : ∀ s ∈ steps, s.keepsKeys) :
    keys (replay policy q steps) = keys q := by
  induction steps generalizing q with
  | nil => rfl
  | cons s rest ih =>
    obtain ⟨hhead, hrest⟩ := hsteps
    have htail := ih (after policy q s) hrest fun t ht => hkeeps t (List.mem_cons_of_mem _ ht)
    have hstep := keys_after_of_keepsKeys policy q s hhead (hkeeps s (List.mem_cons_self ..))
    exact htail.trans hstep

/-- A new key is the newest, whatever had to leave for it. -/
theorem getLast_keys_after_stored (q : Queue) (key : Key) (v : Value)
    (hs : Reports policy q (.stored key v true)) :
    (keys (after policy q (.stored key v true))).getLast? = some key := by
  have hnew : (lookup q key).isSome = false := by
    have hnone : true = (lookup q key).isNone := hs
    rw [← Option.not_isNone, ← hnone]
    rfl
  obtain ⟨n, hyoungest⟩ := youngest_append policy q (key, v)
  simp only [after, store, hnew, Bool.false_eq_true, if_false, hyoungest]
  simp [keys]

theorem replays_of_prefix (q : Queue) (steps done : List CacheStep) (h : Replays policy q steps)
    (hdone : done <+: steps) : Replays policy q done := by
  obtain ⟨rest, rfl⟩ := hdone
  exact ((replays_append policy q done rest).mp h).1

/-- A history that replays on a list is one of a first-in first-out queue. -/
theorem firstInFirstOut_of_replays (steps : List CacheStep) (h : Replays policy [] steps) :
    FirstInFirstOut policy steps where
  reports := (replays_iff policy [] steps).mp h
  distinct done _ := distinct_replay policy [] done List.Pairwise.nil
  within done _ capacity hpolicy :=
    length_replay_le policy [] done capacity hpolicy (Nat.zero_le capacity)
  newest done key v mid hprefix hkeeps := by
    have hreplays := replays_of_prefix policy [] steps _ h hprefix
    obtain ⟨-, hstored, hmid⟩ := (replays_append policy [] done _).mp hreplays
    rw [replay_append]
    have hkeys := keys_replay_of_keepsKeys policy _ mid hmid hkeeps
    have hlast := getLast_keys_after_stored policy _ key v hstored
    rw [← hkeys] at hlast
    exact hlast
  order done mid hprefix hkeeps := by
    have hreplays := replays_of_prefix policy [] steps _ h hprefix
    have hmid := ((replays_append policy [] done mid).mp hreplays).2
    rw [replay_append]
    exact keys_replay_of_keepsKeys policy _ mid hmid hkeeps

end Queue

def Memoizer.queueIn {σ : Type} (m : Memoizer) (i : Nat) (w : World σ) : Queue :=
  Queue.replay m.policy [] (w.steps i)

namespace World

variable {σ : Type} (w : World σ) (code : Code σ) (i : Nat) (m : Memoizer)

/-- The run has come from the first world to the second, in which memoizer `i` has this queue. -/
structure MovesTo (q : Queue) (w' : World σ) : Prop where
  moment : w.Underway code w'
  queue : m.queueIn i w' = q

/-- Whatever a program does with memoizer `i` next, it is answered as the queue has it, and moves the queue on. -/
structure Follows : Prop where
  lookup : ∀ (call : Machine.Caller σ) key, ∃ w',
    w.Gets code call (Program.lookup i key) (Queue.lookup (m.queueIn i w) key) w' ∧
      w.MovesTo code i m (m.queueIn i w) w'
  size : ∀ call : Machine.Caller σ, ∃ w', w.Gets code call (Program.size i) (m.queueIn i w).length w' ∧
    w.MovesTo code i m (m.queueIn i w) w'
  store : ∀ (call : Machine.Caller σ) key v, ∃ w', w.Gets code call (Program.store i key v) () w' ∧
    w.MovesTo code i m (Queue.store m.policy (m.queueIn i w) key v) w'
  clear : ∀ call : Machine.Caller σ, ∃ w', w.Gets code call (Program.clear i) () w' ∧ w.MovesTo code i m [] w'
  /-- Calls find what the queue has, whoever makes them. -/
  serves : w.Serves code i m (Queue.lookup (m.queueIn i w))
  hit : ∀ args v, Queue.lookup (m.queueIn i w) args = some v →
    w.MovesTo code i m (m.queueIn i w) (w.hitting i m args v)
  /-- A call that finds nothing leaves the queue to the function, and stores what this answers. -/
  missed : ∀ args, Queue.lookup (m.queueIn i w) args = none →
    w.MovesTo code i m (m.queueIn i w) (w.missing i m args)
  concluded : ∀ args v, m.queueIn i (w.concluding i m args (.ok v)) = Queue.store m.policy (m.queueIn i w) args v
  failed : ∀ args e, m.queueIn i (w.concluding i m args (.error e)) = m.queueIn i w
  /-- The body of a function makes its requests where the call has come to. -/
  begun : ∀ f run, code.bodies[f.body]? = some (.program run) → ∀ depth args,
    w.MovesTo code i m (m.queueIn i w) (w.record (.started f.body args)) ∧
      Machine.call code (depth + 1) f args w =
        Machine.runProgram code (Machine.call code depth) (run args) (w.record (.started f.body args))
  /-- Where a program comes to its end, the queue is followed again. -/
  ended : ∀ (β : Type) (p : Program σ β) depth b w',
    Machine.runProgram code (Machine.call code depth) p w = some (b, w') → w.Underway code w'

end World

section Moments

variable {σ : Type} {e : Engine σ} (he : e.Reachable) {i : Nat} {m : Memoizer}
  (hm : e.code.memoizers[i]? = some m) {w w' : World σ} (hw : e.world.Underway e.code w)

include he hm hw

/-- At every moment the steps in the journal make the pairs that are in the cache. -/
theorem Engine.Reachable.queueIn_eq : m.queueIn i w = (w.cache i).toQueue :=
  ((he.openTrace hm hw).replays (Cache.wellFormed_empty m.policy)).2

theorem Engine.Reachable.movesTo (h : w.Underway e.code w') {q : Queue} (hq : (w'.cache i).toQueue = q) :
    w.MovesTo e.code i m q w' :=
  ⟨h, (he.queueIn_eq hm (hw.trans h)).trans hq⟩

/-- Storing what the function has answered does to the queue what it does to the cache. -/
theorem Engine.Reachable.queueIn_concluding (args : Key) (v : Value) :
    m.queueIn i (w.concluding i m args (.ok v)) = Queue.store m.policy (m.queueIn i w) args v := by
  have hc := he.wellFormed_underway hm hw
  have hqueue := he.queueIn_eq hm hw
  have hstored := (Trace.replays_storing hc args v).2
  rw [Memoizer.queueIn, World.steps_concluding, Queue.replay_append]
  change Queue.replay m.policy (m.queueIn i w) ((w.cache i).storing m.policy args v) = _
  rw [hqueue, hstored, Cache.toQueue_store m.policy _ args v hc]

theorem Engine.Reachable.lookup_eq (key : Key) : (w.cache i).lookup key = Queue.lookup (m.queueIn i w) key := by
  rw [he.queueIn_eq hm hw, Cache.lookup_eq m.policy _ (he.wellFormed_underway hm hw)]

theorem Engine.Reachable.size_eq : (w.cache i).size = (m.queueIn i w).length := by
  rw [he.queueIn_eq hm hw, Cache.size_eq]

/-- What leaves the cache as it is leaves the queue as it is. -/
theorem Engine.Reachable.still (h : World.Course e.code w w') (hcache : w'.cache i = w.cache i) :
    w.MovesTo e.code i m (m.queueIn i w) w' :=
  he.movesTo hm hw (.after h (.here w')) (by rw [hcache, he.queueIn_eq hm hw])

theorem Engine.Reachable.follows : w.Follows e.code i m where
  lookup call key := by
    have hanswer := Machine.lookup_apply e.code i m key w hm
    have hcourse := World.Course.looked w hm key
    rw [he.lookup_eq hm hw] at hanswer hcourse
    exact ⟨_, Machine.gets_of_answer hanswer, he.still hm hw hcourse rfl⟩
  size call := by
    have hanswer := Machine.size_apply e.code i m w hm
    have hcourse := World.Course.measured w hm
    rw [he.size_eq hm hw] at hanswer hcourse
    exact ⟨_, Machine.gets_of_answer hanswer, he.still hm hw hcourse rfl⟩
  store call key v := by
    have hanswer : Machine.answer e.code call (.store i key v) w = some ((), w.storeIn i m key v) := by
      change (Machine.memoizer e.code i >>= fun m => Machine.store i m key v) w = _
      rw [Machine.bind_apply, Machine.memoizer_apply e.code i m w hm]
      exact Machine.store_apply i m key v w
    refine ⟨_, Machine.gets_of_answer hanswer, he.movesTo hm hw (.after (.stored w hm key v) (.here _)) ?_⟩
    rw [World.cache_storeIn, Cache.toQueue_store m.policy _ key v (he.wellFormed_underway hm hw),
      he.queueIn_eq hm hw]
  clear call := by
    have hanswer := Machine.clear_apply e.code i m w hm
    refine ⟨_, Machine.gets_of_answer hanswer, he.movesTo hm hw (.after (.cleared w hm) (.here _)) ?_⟩
    rw [World.cache_note, World.cache_setCache]
    rfl
  serves := by
    rw [← funext (he.lookup_eq hm hw)]
    exact World.serves hm w
  hit args v hfound := by
    rw [← he.lookup_eq hm hw] at hfound
    exact he.still hm hw (.hit w hm args v hfound) rfl
  missed args hnone := by
    rw [← he.lookup_eq hm hw] at hnone
    exact he.movesTo hm hw (.missed hm args hnone (.here _)) (he.queueIn_eq hm hw).symm
  concluded := he.queueIn_concluding hm hw
  failed args error := by
    rw [Memoizer.queueIn, World.steps_concluding, Queue.replay_append]
    rfl
  begun f run hbody depth args := by
    refine ⟨he.still hm hw (.recorded w _ rfl) rfl, ?_⟩
    rw [Machine.call_program e.code args depth f run hbody]
    rfl
  ended β p depth b w' hrun := .after (Machine.courses_runProgram e.code depth p w b w' hrun) (.here w')

end Moments

/-- The cache of every memoizer is a queue of pairs, at every moment of every run: replaying the steps up to there
on a list gives every answer that it gave, the list that it shows then, and everything that it will do next. -/
theorem memo_cache_refines_queue {σ : Type} (e : Engine σ) (he : e.Reachable) (i : Nat) (m : Memoizer)
    (hm : e.code.memoizers[i]? = some m) (w : World σ) (hw : e.world.Underway e.code w) :
    Queue.FirstInFirstOut m.policy (w.steps i) ∧ (w.cache i).Shows m.policy (m.queueIn i w) ∧
      w.Follows e.code i m := by
  have hreplays := ((he.openTrace hm hw).replays (Cache.wellFormed_empty m.policy)).1
  have hshows := (he.wellFormed_underway hm hw).shows
  rw [← he.queueIn_eq hm hw] at hshows
  exact ⟨Queue.firstInFirstOut_of_replays m.policy _ hreplays, hshows, he.follows hm hw⟩

def refilling : Key → Program Unit Outcome
  | [.bool true] => do
    Program.store 0 [.undefined] .null
    Program.store 0 [.bool false] .null
    Program.store 0 [.undefined] .undefined
    let _ ← Program.callMemoized 0 [.null]
    Program.callMemoized 0 [.null]
  | _ => pure (.ok .undefined)

/-- Inside of a call, whose body has stored two keys under a capacity of two, overwritten the older one, and come
back with a miss and a hit: the older one is gone in spite of the overwrite. -/
theorem memo_cache_refines_queue_capacity_two :
    ∃ (e : Engine Unit) (m : Memoizer) (outcome : Outcome) (w : World Unit), e.Reachable ∧
      e.code.memoizers[0]? = some m ∧ m.policy = .bounded 2 (by decide) ∧
      Machine.call e.code 2 m.function [.bool true] (e.world.missing 0 m [.bool true]) = some (outcome, w) ∧
      e.world.Underway e.code w ∧ (m.queueIn 0 w).length = 2 ∧ Queue.lookup (m.queueIn 0 w) [.undefined] = none ∧
      Queue.FirstInFirstOut m.policy (w.steps 0) ∧ (w.cache 0).Shows m.policy (m.queueIn 0 w) ∧
      w.Follows e.code 0 m := by
  let m : Memoizer := ⟨⟨"step", ["x"], 0⟩, .bounded 2 (by decide)⟩
  let code : Code Unit := ⟨#[.program refilling], #[m]⟩
  have hqueue : (Machine.call code 2 m.function [.bool true] ((World.start ()).missing 0 m [.bool true])).map
      (fun r => ((m.queueIn 0 r.2).length, (Queue.lookup (m.queueIn 0 r.2) [.undefined]).isNone)) =
      some (2, true) := by decide +kernel
  obtain ⟨⟨outcome, w⟩, hrun, hw⟩ := Option.map_eq_some_iff.mp hqueue
  obtain ⟨hlength, hnone⟩ := Prod.mk.inj hw
  have hdefined := Engine.Reachable.define (.start ()) "step" ["x"] (.program refilling)
  have hreachable : Engine.Reachable ⟨code, World.start ()⟩ := hdefined.defineMemoizer m
  have hcode : code.memoizers[0]? = some m := rfl
  have hunderway : (World.start ()).Underway code w :=
    .missed hcode [.bool true] rfl (.after (Machine.courses_call code 2 _ _ _ outcome w hrun) (.here w))
  exact ⟨_, m, outcome, w, hreachable, hcode, rfl, hrun, hunderway, hlength, Option.isNone_iff_eq_none.mp hnone,
    memo_cache_refines_queue _ hreachable 0 m hcode w hunderway⟩

end RuntimeContracts
