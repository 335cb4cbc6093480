import RuntimeContracts.Machine.Journal
import RuntimeContracts.Proofs.Cache.Refinement

/-!
Traces of a cache: which sequences of steps a computation can take a cache through, and where they
leave it. A memoized call is one bracket of such a sequence, with the steps of the memoized body inside
of it, so a trace may pass through the same cache many times between a look-up and its store. In the middle of
a computation the trace is open: calls that have missed are still waiting for their callables.

Replaying the steps on a queue of pairs, one at a time, gives every answer that the cache gave.
-/
namespace RuntimeContracts

def Cache.storing (c : Cache) (policy : CachePolicy) (key : Key) (v : Value) : List CacheStep :=
  (c.store policy key v).evicted.map CacheStep.evicted ++
    [.stored key v (c.store policy key v).isNew]

def Cache.closing (c : Cache) (policy : CachePolicy) (key : Key) : Outcome → List CacheStep
  | .ok v => c.storing policy key v
  | .error _ => []

/-- The steps, oldest first, lead from one cache to the other and leave no call open. -/
inductive Trace (policy : CachePolicy) : Cache → List CacheStep → Cache → Prop
  | nil (c : Cache) : Trace policy c [] c
  | append {c₁ c₂ c₃ : Cache} {steps steps' : List CacheStep} :
      Trace policy c₁ steps c₂ → Trace policy c₂ steps' c₃ → Trace policy c₁ (steps ++ steps') c₃
  | looked (c : Cache) (key : Key) : Trace policy c [.looked key (c.lookup key)] c
  | measured (c : Cache) : Trace policy c [.measured c.size] c
  | cleared (c : Cache) : Trace policy c [.cleared c.size] Cache.empty
  | stored (c : Cache) (key : Key) (v : Value) :
      Trace policy c (c.storing policy key v) (c.store policy key v).cache
  | hit (c : Cache) (key : Key) (v : Value) (h : c.lookup key = some v) :
      Trace policy c [.called key, .hit key v] c
  | failed {c c' : Cache} {steps : List CacheStep} (key : Key) (e : CallError)
      (h : c.lookup key = none) (inside : Trace policy c steps c') :
      Trace policy c (.called key :: .missed key :: (steps ++ [.answered key (.error e)])) c'
  | succeeded {c c' : Cache} {steps : List CacheStep} (key : Key) (v : Value)
      (h : c.lookup key = none) (inside : Trace policy c steps c') :
      Trace policy c
        (.called key :: .missed key :: (steps ++ .answered key (.ok v) :: c'.storing policy key v))
        (c'.store policy key v).cache

/-- The steps lead from one cache to the other and may leave calls open. -/
inductive OpenTrace (policy : CachePolicy) : Cache → List CacheStep → Cache → Prop
  | closed {c c' : Cache} {steps : List CacheStep} (h : Trace policy c steps c') : OpenTrace policy c steps c'
  | after {c c₁ c' : Cache} {steps steps' : List CacheStep} (h : Trace policy c steps c₁)
      (later : OpenTrace policy c₁ steps' c') : OpenTrace policy c (steps ++ steps') c'
  | inside {c c' : Cache} {steps : List CacheStep} (key : Key) (h : c.lookup key = none)
      (inside : OpenTrace policy c steps c') : OpenTrace policy c (.called key :: .missed key :: steps) c'

namespace Queue

/-- What a step leaves of the queue. An eviction is a part of the store that follows it. -/
def after (policy : CachePolicy) (q : Queue) : CacheStep → Queue
  | .stored key v _ => store policy q key v
  | .cleared _ => []
  | _ => q

/-- Whether a step reports what is true of the queue. -/
def Reports (policy : CachePolicy) (q : Queue) : CacheStep → Prop
  | .looked key answer => answer = lookup q key
  | .measured n => n = q.length
  | .called _ => True
  | .hit key v => lookup q key = some v
  | .missed key => lookup q key = none
  | .answered _ _ => True
  | .evicted key => leaving policy q = [key]
  | .stored key _ isNew => isNew = (lookup q key).isNone
  | .cleared n => n = q.length

def replay (policy : CachePolicy) (q : Queue) (steps : List CacheStep) : Queue :=
  steps.foldl (after policy) q

def Replays (policy : CachePolicy) : Queue → List CacheStep → Prop
  | _, [] => True
  | q, s :: rest => Reports policy q s ∧ Replays policy (after policy q s) rest

variable (policy : CachePolicy)

theorem replay_append (q : Queue) (steps steps' : List CacheStep) :
    replay policy q (steps ++ steps') = replay policy (replay policy q steps) steps' :=
  List.foldl_append

theorem replays_append (q : Queue) (steps steps' : List CacheStep) :
    Replays policy q (steps ++ steps') ↔
      Replays policy q steps ∧ Replays policy (replay policy q steps) steps' := by
  induction steps generalizing q with
  | nil => simp [Replays, replay]
  | cons s rest ih =>
    have hrest := ih (after policy q s)
    simp only [List.cons_append, Replays, hrest, and_assoc]
    rfl

/-- Each step is judged by the queue that the steps before it make. -/
theorem replays_iff (q : Queue) (steps : List CacheStep) :
    Replays policy q steps ↔
      ∀ done s rest, steps = done ++ s :: rest → Reports policy (replay policy q done) s := by
  constructor
  · rintro h done s rest rfl
    exact ((replays_append policy q done (s :: rest)).mp h).2.1
  · intro h
    induction steps generalizing q with
    | nil => trivial
    | cons s rest ih =>
      refine ⟨h [] s rest rfl, ih (after policy q s) fun done t rest' hsplit => ?_⟩
      exact h (s :: done) t rest' (by rw [hsplit, List.cons_append])

/-- A queue within its policy loses at most one pair to a new one. -/
theorem leaving_length_le (q : Queue)
    (hq : ∀ capacity, policy.capacity? = some capacity → q.length ≤ capacity) :
    (leaving policy q).length ≤ 1 := by
  unfold leaving
  split
  · exact Nat.zero_le 1
  · rename_i capacity hpolicy
    have hlen := hq capacity hpolicy
    simp only [keys, List.length_take, List.length_map]
    omega

end Queue

namespace Trace

open Queue

variable {policy : CachePolicy} {c c' : Cache} {steps : List CacheStep}

/-- Storing a result reports the eviction and the store as the queue has them. -/
theorem replays_storing (hc : c.WellFormed policy) (key : Key) (v : Value) :
    Replays policy c.toQueue (c.storing policy key v) ∧
      replay policy c.toQueue (c.storing policy key v) = (c.store policy key v).cache.toQueue := by
  have hnew := Cache.isNew_store policy c key v hc
  have hlookup := Cache.lookup_eq policy c hc key
  rw [Cache.toQueue_store policy c key v hc]
  unfold Cache.storing
  rw [Cache.evicted_store policy c key v hc, hnew, hlookup]
  cases hfound : Queue.lookup c.toQueue key with
  | some w => simp [Replays, Reports, replay, after, hfound]
  | none =>
    have hone : (leaving policy c.toQueue).length ≤ 1 :=
      leaving_length_le policy c.toQueue fun capacity hpolicy =>
        Cache.size_eq c ▸ hc.within capacity hpolicy
    cases hleaving : leaving policy c.toQueue with
    | nil => simp [Replays, Reports, replay, after, hfound]
    | cons k rest =>
      obtain rfl : rest = [] := by
        rw [hleaving, List.length_cons] at hone
        exact List.eq_nil_of_length_eq_zero (by omega)
      simp [Replays, Reports, replay, after, hfound, hleaving]

/-- A trace leads from well formed caches to well formed ones, whatever happens inside of its calls. -/
theorem wellFormed (h : Trace policy c steps c') (hc : c.WellFormed policy) :
    c'.WellFormed policy := by
  induction h with
  | nil => exact hc
  | append _ _ ih ih' => exact ih' (ih hc)
  | looked => exact hc
  | measured => exact hc
  | cleared => exact Cache.wellFormed_empty policy
  | stored c key v => exact Cache.wellFormed_store policy c key v hc
  | hit => exact hc
  | failed _ _ _ _ ih => exact ih hc
  | succeeded key v _ _ ih => exact Cache.wellFormed_store policy _ key v (ih hc)

/-- Replaying a trace on the queue of its first cache reports the truth throughout and ends in the queue
of its last one. -/
theorem replays (h : Trace policy c steps c') (hc : c.WellFormed policy) :
    Replays policy c.toQueue steps ∧ replay policy c.toQueue steps = c'.toQueue := by
  induction h with
  | nil => exact ⟨trivial, rfl⟩
  | append htrace _ ih ih' =>
    obtain ⟨hreports, hqueue⟩ := ih hc
    have hrest := ih' (htrace.wellFormed hc)
    rw [replays_append, replay_append, hqueue]
    exact ⟨⟨hreports, hrest.1⟩, hrest.2⟩
  | looked c key => exact ⟨⟨Cache.lookup_eq policy c hc key, trivial⟩, rfl⟩
  | measured c => exact ⟨⟨Cache.size_eq c, trivial⟩, rfl⟩
  | cleared c => exact ⟨⟨Cache.size_eq c, trivial⟩, rfl⟩
  | stored c key v => exact replays_storing hc key v
  | hit c key v hfound =>
    have hqueue : Queue.lookup c.toQueue key = some v := by
      rw [← Cache.lookup_eq policy c hc, hfound]
    exact ⟨⟨trivial, hqueue, trivial⟩, rfl⟩
  | @failed c c' steps key e hmiss _ ih =>
    have hqueue : Queue.lookup c.toQueue key = none := by
      rw [← Cache.lookup_eq policy c hc, hmiss]
    obtain ⟨hreports, hinside⟩ := ih hc
    have hrest : Replays policy c.toQueue (steps ++ [.answered key (.error e)]) :=
      (replays_append policy _ _ _).mpr ⟨hreports, trivial, trivial⟩
    refine ⟨⟨trivial, hqueue, hrest⟩, ?_⟩
    exact (replay_append policy c.toQueue steps _).trans hinside
  | @succeeded c c' steps key v hmiss inside ih =>
    have hqueue : Queue.lookup c.toQueue key = none := by
      rw [← Cache.lookup_eq policy c hc, hmiss]
    obtain ⟨hreports, hinside⟩ := ih hc
    obtain ⟨hstoring, hstored⟩ := replays_storing (inside.wellFormed hc) key v
    have hrest : Replays policy c.toQueue
        (steps ++ .answered key (.ok v) :: c'.storing policy key v) := by
      rw [replays_append, hinside]
      exact ⟨hreports, trivial, hstoring⟩
    refine ⟨⟨trivial, hqueue, hrest⟩, ?_⟩
    change replay policy c.toQueue (steps ++ _) = _
    rw [replay_append, hinside]
    exact hstored

end Trace

namespace OpenTrace

open Queue

variable {policy : CachePolicy} {c c' : Cache} {steps : List CacheStep}

theorem wellFormed (h : OpenTrace policy c steps c') (hc : c.WellFormed policy) : c'.WellFormed policy := by
  induction h with
  | closed h => exact h.wellFormed hc
  | after h _ ih => exact ih (h.wellFormed hc)
  | inside _ _ _ ih => exact ih hc

/-- With calls still open, too, the queue has every answer that the cache gave. -/
theorem replays (h : OpenTrace policy c steps c') (hc : c.WellFormed policy) :
    Replays policy c.toQueue steps ∧ replay policy c.toQueue steps = c'.toQueue := by
  induction h with
  | closed h => exact h.replays hc
  | after h _ ih =>
    obtain ⟨hreports, hqueue⟩ := h.replays hc
    have hlater := ih (h.wellFormed hc)
    rw [replays_append, replay_append, hqueue]
    exact ⟨⟨hreports, hlater.1⟩, hlater.2⟩
  | @inside c c' steps key hmiss _ ih =>
    have hqueue : Queue.lookup c.toQueue key = none := by
      rw [← Cache.lookup_eq policy c hc, hmiss]
    obtain ⟨hreports, hinside⟩ := ih hc
    exact ⟨⟨trivial, hqueue, hreports⟩, hinside⟩

end OpenTrace

end RuntimeContracts
