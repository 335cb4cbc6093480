import RuntimeContracts.Proofs.Cache.Accounts
import RuntimeContracts.Proofs.Cache.Rest
import RuntimeContracts.Proofs.Machine.Gauge
import RuntimeContracts.Proofs.Machine.Requests

/-!
The events of a memoizer account for everything. Whenever none of its calls and stores is in progress, be it
between two runs or in the middle of some other function, its hits and misses add up to its calls, and its
evictions, together with what was dropped and what is there, to the results that were stored under new keys. Its
misses are the executions that it makes, as a gauge in front of its function counts them.
-/
namespace RuntimeContracts

namespace Entry

def steps (i : Nat) (past : List Entry) : List CacheStep := past.reverse.filterMap (stepOf i)

def reports (i : Nat) (message : String) (e : Entry) : Bool :=
  (e.stepOf i).isSome && e.event.report?.map Report.message == some message

variable (i : Nat) (past : List Entry)

/-- To count the entries of some kind of step is to count the steps. -/
theorem countP_of_stepOf (p : CacheStep → Bool) (q : Entry → Bool)
    (h : ∀ e, q e = ((e.stepOf i).map p).getD false) : past.countP q = (steps i past).countP p := by
  rw [steps, List.countP_filterMap, List.countP_reverse, funext h]

theorem countP_reports (p : CacheStep → Bool) (message : String)
    (h : ∀ name step, ((Event.cache i name step).report?.map Report.message == some message) = p step) :
    past.countP (reports i message) = (steps i past).countP p := by
  refine countP_of_stepOf i past p _ fun e => ?_
  obtain ⟨event, within⟩ := e
  cases event with
  | cache j name step =>
    by_cases hj : j = i
    · subst j
      simp [reports, stepOf, h name step]
    · simp [reports, stepOf, hj]
  | _ => rfl

theorem countP_hits : past.countP (reports i "memo hit") = (steps i past).countP CacheStep.isHit := by
  refine countP_reports i past CacheStep.isHit _ fun name step => ?_
  cases step <;> rfl

/-- The misses that are reported are the ones in the history of the cache. -/
theorem countP_misses : past.countP (reports i "memo miss") = (steps i past).countP CacheStep.isMiss := by
  refine countP_reports i past CacheStep.isMiss _ fun name step => ?_
  cases step <;> rfl

theorem countP_evictions : past.countP (reports i "memo cache evicted oldest entry") =
    (steps i past).countP CacheStep.isEviction := by
  refine countP_reports i past CacheStep.isEviction _ fun name step => ?_
  cases step <;> rfl

theorem countP_missOf : (past.countP fun e => (e.missOf i).isSome) =
    (steps i past).countP CacheStep.isMiss := by
  refine countP_of_stepOf i past CacheStep.isMiss _ fun e => ?_
  obtain ⟨event, within⟩ := e
  cases event with
  | cache j name step =>
    by_cases hj : j = i
    · cases step <;> simp [missOf, stepOf, hj]
    · cases step <;> simp [missOf, stepOf, hj]
  | _ => rfl

theorem stepOf_of_missOf {e : Entry} {args : Key} (h : e.missOf i = some args) :
    e.stepOf i = some (.missed args) := by
  obtain ⟨event, within⟩ := e
  cases event with
  | cache j name step =>
    cases step with
    | missed args' =>
      by_cases hj : j = i
      · simpa [missOf, stepOf, hj] using h
      · simp [missOf, hj] at h
    | _ => cases h
  | _ => cases h

open Executions in
/-- A miss is not the last thing that happens before a moment of rest. -/
theorem missOf_newest (h : AtRest (steps i past)) (e : Entry) (he : past.head? = some e) :
    e.missOf i = none := by
  obtain ⟨rest, rfl⟩ := List.head?_eq_some_iff.mp he
  cases hmiss : e.missOf i with
  | none => rfl
  | some args =>
    have hsteps : steps i (e :: rest) = steps i rest ++ [.missed args] := by
      simp [steps, stepOf_of_missOf i hmiss]
    have hrunning := h.running
    rw [hsteps, running_append] at hrunning
    cases hrunning

end Entry

/-- The events of memoizer `i` in a part of the journal, newest first, and the size of its cache at the end of
it account for each other. -/
structure EventsAccount (i : Nat) (m : Memoizer) (past : List Entry) (size : Nat) : Prop where
  calls : past.countP (Entry.reports i "memo hit") + past.countP (Entry.reports i "memo miss") =
    (Entry.steps i past).countP CacheStep.isCall
  /-- The memoized function has answered once for each miss. -/
  answers : past.countP (Entry.reports i "memo miss") = (Entry.steps i past).countP CacheStep.isAnswer
  entries : past.countP (Entry.reports i "memo cache evicted oldest entry") + size +
      CacheStep.dropped (Entry.steps i past) =
    (Entry.steps i past).countP CacheStep.isInsertion
  unbounded : m.policy = .unbounded →
    past.countP (Entry.reports i "memo cache evicted oldest entry") = 0

def Memoizer.sizeAfter (m : Memoizer) (i : Nat) (past : List Entry) : Nat :=
  (Queue.replay m.policy [] (Entry.steps i past)).length

/-- Whenever memoizer `i` was at rest its events accounted for everything; the sizes in the accounts are those that
the cache has and has reported. -/
structure World.Accounted {σ : Type} (w : World σ) (i : Nat) (m : Memoizer) : Prop where
  events : ∀ past, past <:+ w.journal → Executions.AtRest (Entry.steps i past) →
    EventsAccount i m past (m.sizeAfter i past)
  size : m.sizeAfter i w.journal = (w.cache i).size
  measured : ∀ later name n within past, w.journal = later ++ ⟨.cache i name (.measured n), within⟩ :: past →
    n = m.sizeAfter i past

/-- The journals of one run without a gauge in front of the function of memoizer `i` and with it. -/
structure GaugedBy (i gauge : Nat) (new marked : List Entry) : Prop where
  plain : marked.filter (fun e => (e.startOf gauge).isNone) = new
  /-- The memoizer makes its executions on the arguments of its misses, in their order. -/
  executed : ∀ past, past <:+ marked → Executions.AtRest (Entry.steps i past) →
    past.filterMap (Entry.startOf gauge) = past.filterMap (Entry.missOf i)
  counted : ∀ past, past <:+ marked → Executions.AtRest (Entry.steps i past) →
    past.countP (fun e => (e.startOf gauge).isSome) = past.countP (Entry.reports i "memo miss")

/-- The marks of the gauge count the misses up to every moment of rest. -/
theorem gaugedBy_flatMap_marked (i gauge : Nat) {new : List Entry} (h : ∀ e ∈ new, e.startOf gauge = none) :
    GaugedBy i gauge new (new.flatMap (Entry.marked i gauge)) := by
  have hexecuted : ∀ past, past <:+ new.flatMap (Entry.marked i gauge) →
      Executions.AtRest (Entry.steps i past) →
        past.filterMap (Entry.startOf gauge) = past.filterMap (Entry.missOf i) :=
    fun past hpast hrest => Entry.filterMap_of_suffix h hpast (Entry.missOf_newest i past hrest)
  refine ⟨Entry.filter_flatMap_marked h, hexecuted, fun past hpast hrest => ?_⟩
  have hlength := congrArg List.length (hexecuted past hpast hrest)
  rw [List.length_filterMap_eq_countP, List.length_filterMap_eq_countP] at hlength
  rw [hlength, Entry.countP_missOf, Entry.countP_misses]

section Reachable

open Executions

variable {σ : Type} {e : Engine σ} (he : e.Reachable) {i : Nat} {m : Memoizer}
  (hm : e.code.memoizers[i]? = some m) {w : World σ} (hw : e.world.Underway e.code w)

include he hm hw

/-- Up to a moment of rest the journal is a trace, so the accounts of traces are those of the events. -/
theorem Engine.Reachable.eventsAccount {past : List Entry} (hpast : past <:+ w.journal)
    (hrest : AtRest (Entry.steps i past)) : EventsAccount i m past (m.sizeAfter i past) := by
  obtain ⟨later, hlater⟩ := hpast
  have hsplit : w.steps i = Entry.steps i past ++ Entry.steps i later := by
    change Entry.steps i w.journal = _
    rw [← hlater, Entry.steps, List.reverse_append, List.filterMap_append]
    rfl
  have htrace := he.openTrace hm hw
  rw [hsplit] at htrace
  obtain ⟨c, hbefore⟩ := hrest.exists_trace htrace
  have hempty := Cache.wellFormed_empty m.policy
  have haccounts := hbefore.accounts hempty
  have hsize : m.sizeAfter i past = c.size := by
    rw [Cache.size_eq, ← (hbefore.replays hempty).2]
    rfl
  constructor
  · rw [Entry.countP_hits, Entry.countP_misses]
    exact haccounts.called
  · rw [Entry.countP_misses]
    exact haccounts.answered
  · rw [Entry.countP_evictions, hsize]
    exact haccounts.inserted.trans (Nat.zero_add _)
  · intro hpolicy
    rw [Entry.countP_evictions]
    exact haccounts.unbounded (hpolicy ▸ rfl)

/-- Every size that was ever asked for is the one after the journal of that time. -/
theorem Engine.Reachable.measured {later past : List Entry} {name : String} {n : Nat} {within : List String}
    (h : w.journal = later ++ ⟨.cache i name (.measured n), within⟩ :: past) : n = m.sizeAfter i past := by
  have hsplit : w.steps i = Entry.steps i past ++ .measured n :: Entry.steps i later := by
    change Entry.steps i w.journal = _
    simp [Entry.steps, h, Entry.stepOf]
  have hreplays := ((he.openTrace hm hw).replays (Cache.wellFormed_empty m.policy)).1
  rw [hsplit] at hreplays
  exact ((Queue.replays_append m.policy _ _ _).mp hreplays).2.1

theorem Engine.Reachable.accounted : w.Accounted i m := by
  refine ⟨fun past => he.eventsAccount hm hw, ?_, fun _ _ _ _ _ => he.measured hm hw⟩
  rw [Cache.size_eq, ← ((he.openTrace hm hw).replays (Cache.wellFormed_empty m.policy)).2]
  rfl

end Reachable

/-- At every moment of every run the events of a memoizer account for everything that has happened to it up to any
moment of rest, and its calls, by a handle or not, are events. From every world a run with a gauge in front of the
memoized function is the run without it, and the gauge has started once for each miss. -/
theorem memo_events_account {σ : Type} (e : Engine σ) (he : e.Reachable) (i : Nat) (m : Memoizer)
    (hm : e.code.memoizers[i]? = some m) :
    (∀ w, e.world.Underway e.code w → w.Accounted i m ∧ w.Serves e.code i m (w.cache i).lookup) ∧
    Executions.AtRest (Entry.steps i e.world.journal) ∧
    ∀ (α : Type) (p : Program σ α) (depth : Nat) (a : α) (w w' : World σ),
      Machine.runProgram e.code (Machine.call e.code depth) p w = some (a, w') →
        ∃ new marked, w'.journal = new ++ w.journal ∧ GaugedBy i e.code.bodies.size new marked ∧
          Machine.runProgram (e.code.gauged i m) (Machine.call (e.code.gauged i m) (2 * depth + 1)) p w =
            some (a, w'.withJournal (marked ++ w.journal)) := by
  refine ⟨fun w hw => ⟨he.accounted hm hw, World.serves hm w⟩, Executions.atRest_of_trace (he.trace i m hm), ?_⟩
  intro α p depth a w w' hrun
  obtain ⟨new, hnew, hstarts, hgauged⟩ := Machine.gauging_runProgram hm depth p w a w' hrun
  exact ⟨new, _, hnew, gaugedBy_flatMap_marked i _ hstarts, hgauged w.journal⟩

def reentering : Key → Program Unit Outcome
  | [.bool true] => do
    let outcome ← Program.callMemoized 0 [.null]
    Program.clear 0
    pure outcome
  | [.bool false] => pure (.error (.custom "no"))
  | _ => pure (.ok .null)

/-- Two calls of a function made from the memoizer, a body that calls its memoizer and clears it, one that fails, a
hit and a store that evicts, under a capacity of one. -/
theorem memo_events_account_reentrant :
    ∃ (e : Engine Unit) (m : Memoizer) (p : Program Unit Nat) (n : Nat) (w : World Unit) (marked : List Entry),
      e.Reachable ∧ e.code.memoizers[0]? = some m ∧ m.policy = .bounded 1 (by decide) ∧
      e.code.bodies[1]? = some (.memoized 0) ∧
      Machine.runProgram e.code (Machine.call e.code 4) p e.world = some (n, w) ∧
      w.journal.countP (Entry.reports 0 "memo hit") = 1 ∧
      w.journal.countP (Entry.reports 0 "memo miss") = 3 ∧
      w.journal.countP (Entry.reports 0 "memo cache evicted oldest entry") = 1 ∧
      CacheStep.dropped (w.steps 0) = 1 ∧ (w.cache 0).size = 1 ∧
      EventsAccount 0 m w.journal (w.cache 0).size ∧
      Machine.runProgram (e.code.gauged 0 m) (Machine.call (e.code.gauged 0 m) 9) p e.world =
        some (n, w.withJournal marked) ∧
      marked.countP (fun entry => (entry.startOf 2).isSome) = 3 ∧
      GaugedBy 0 2 w.journal marked := by
  let m : Memoizer := ⟨⟨"step", ["x"], 0⟩, .bounded 1 (by decide)⟩
  let code : Code Unit := ⟨#[.program reentering, .memoized 0], #[m]⟩
  let p : Program Unit Nat := do
    let _ ← Program.call ⟨"step", ["x"], 1⟩ [.bool true]
    let _ ← Program.call ⟨"step", ["x"], 1⟩ [.bool true]
    let _ ← Program.callMemoized 0 [.bool false]
    Program.store 0 [.undefined] .null
    Program.size 0
  have hcounts : (Machine.runProgram code (Machine.call code 4) p (World.start ())).map (fun r =>
      (r.2.journal.countP (Entry.reports 0 "memo hit"), r.2.journal.countP (Entry.reports 0 "memo miss"),
        r.2.journal.countP (Entry.reports 0 "memo cache evicted oldest entry"),
        CacheStep.dropped (r.2.steps 0), (r.2.cache 0).size)) =
      some (1, 3, 1, 1, 1) := by decide +kernel
  obtain ⟨⟨n, w⟩, hrun, hw⟩ := Option.map_eq_some_iff.mp hcounts
  simp only [Prod.mk.injEq] at hw
  obtain ⟨hhits, hmisses, hevictions, hdropped, hsize⟩ := hw
  have hdefined := Engine.Reachable.define (.start ()) "step" ["x"] (.program reentering)
  have hmade := Engine.Reachable.define (hdefined.defineMemoizer m) "step" ["x"] (.memoized 0)
  have hbefore : Engine.Reachable ⟨code, World.start ()⟩ := hmade
  have hafter : Engine.Reachable ⟨code, w⟩ := .run hmade p 4 n w hrun
  obtain ⟨hmoments, -, hgauged⟩ := memo_events_account _ hbefore 0 m rfl
  obtain ⟨-, hrest, -⟩ := memo_events_account _ hafter 0 m rfl
  have hcourse := Machine.courses_runProgram code 4 p _ n w hrun
  have hunderway : (World.start ()).Underway code w := .after hcourse (.here w)
  obtain ⟨haccounted, -⟩ := hmoments w hunderway
  have hwhole := haccounted.events w.journal List.suffix_rfl hrest
  rw [haccounted.size] at hwhole
  obtain ⟨new, marked, hnew, hmarked, hrun'⟩ := hgauged Nat p 4 n (World.start ()) w hrun
  obtain rfl : w.journal = new := hnew.trans (List.append_nil new)
  have hrun' : Machine.runProgram (code.gauged 0 m) (Machine.call (code.gauged 0 m) 9) p (World.start ()) =
      some (n, w.withJournal marked) := hrun'.trans (by rw [World.start, List.append_nil])
  have hstarts : (Machine.runProgram (code.gauged 0 m) (Machine.call (code.gauged 0 m) 9) p (World.start ())).map
      (fun r => r.2.journal.countP fun entry => (entry.startOf 2).isSome) = some 3 := by decide +kernel
  rw [hrun'] at hstarts
  exact ⟨_, m, p, n, w, marked, hbefore, rfl, rfl, rfl, hrun, hhits, hmisses, hevictions, hdropped, hsize, hwhole,
    hrun', Option.some.inj hstarts, hmarked⟩

end RuntimeContracts
