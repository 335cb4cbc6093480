import RuntimeContracts.Proofs.Cache.Representation
import RuntimeContracts.Proofs.Machine.Requests

/-!
The cache of a memoizer is consistent at every moment: between runs, in the middle of a run, inside of the bodies
of calls that will store their results later, and also in runs that never end. So whenever a result is stored,
making room for it goes as it should.
-/
namespace RuntimeContracts

/-- At every moment of every run the queue of a bounded cache holds the keys of its table, each once, that of an
unbounded one is empty, and making room takes at most one key, with its entry, and never runs out of keys. No call
of a run is made at any other moment: what else calls might do where the cache is not consistent makes no
difference to a run. -/
theorem memo_cache_stays_consistent {σ : Type} (e : Engine σ) (he : e.Reachable) (i : Nat) (m : Memoizer)
    (hm : e.code.memoizers[i]? = some m) :
    (∀ w, e.world.Underway e.code w → (w.cache i).Consistent m.policy ∧
      ∀ capacity, m.policy.capacity? = some capacity → (w.cache i).MakesRoom capacity) ∧
    ∀ (α : Type) (p : Program σ α) (inner depth : Nat) (beyond : Machine.Caller σ),
      (∀ f args w, (w.cache i).Consistent m.policy →
        beyond f args w = Machine.call e.code inner f args w) →
      Machine.runProgram e.code (Machine.callOnto e.code beyond depth) p e.world =
        Machine.runProgram e.code (Machine.call e.code (inner + depth)) p e.world := by
  constructor
  · intro w hw
    have hc := he.wellFormed_underway hm hw
    exact ⟨hc.consistent, fun capacity => hc.makesRoom⟩
  · intro α p inner depth beyond hbeyond
    rw [← Machine.callOnto_call]
    refine Machine.runProgram_eq_of_underway (Machine.courses_call e.code inner) ?_ depth p
    exact fun f args w hw => hbeyond f args w (he.wellFormed_underway hm hw).consistent

def comingBack : Key → Program Unit Outcome
  | [.bool true] => Program.callMemoized 0 [.null]
  | _ => pure (.ok .null)

def Machine.heedful {σ : Type} (call : Machine.Caller σ) : Machine.Caller σ := fun f args w =>
  if (w.cache 0).queue.length ≤ 1 then call f args w else none

/-- Inside of a body that has come back to its memoizer: the only place, which the key stored before held, has gone
to another one. No call of the run sees a second key in the queue. -/
theorem memo_cache_stays_consistent_inside :
    ∃ (e : Engine Unit) (m : Memoizer) (w : World Unit), e.Reachable ∧ e.code.memoizers[0]? = some m ∧
      m.policy = .bounded 1 (by decide) ∧ e.world.Underway e.code w ∧ w.active = ["step"] ∧
      (e.world.cache 0).queue = [[.undefined]] ∧ (w.cache 0).queue = [[.null]] ∧
      (w.cache 0).Consistent m.policy ∧ (w.cache 0).MakesRoom 1 ∧
      Machine.runProgram e.code (Machine.callOnto e.code (Machine.heedful (Machine.call e.code 1)) 1)
          (Program.callMemoized 0 [.bool true]) e.world =
        Machine.runProgram e.code (Machine.call e.code 2) (Program.callMemoized 0 [.bool true]) e.world := by
  let m : Memoizer := ⟨⟨"step", ["x"], 0⟩, .bounded 1 (by decide)⟩
  let code : Code Unit := ⟨#[.program comingBack], #[m]⟩
  let before : World Unit := (World.start ()).storeIn 0 m [.undefined] .null
  have hbefore : Machine.runProgram code (Machine.call code 0) (Program.store 0 [.undefined] .null)
      (World.start ()) = some ((), before) := by rfl
  have hinside : (Machine.runProgram code (Machine.call code 1) (Program.callMemoized 0 [.null])
      (before.missing 0 m [.bool true])).map (fun r => ((r.2.cache 0).queue, r.2.active)) =
      some ([[.null]], ["step"]) := by rfl
  obtain ⟨⟨_, w⟩, hrun, hw⟩ := Option.map_eq_some_iff.mp hinside
  obtain ⟨hqueue, hactive⟩ := Prod.mk.inj hw
  have hdefined := Engine.Reachable.define (.start ()) "step" ["x"] (.program comingBack)
  have hreachable : Engine.Reachable ⟨code, before⟩ := .run (hdefined.defineMemoizer m) _ 0 () before hbefore
  have hcode : code.memoizers[0]? = some m := rfl
  have hnone : (before.cache 0).lookup [.bool true] = none := rfl
  have hunderway : before.Underway code w :=
    .missed hcode [.bool true] hnone (.after (Machine.courses_runProgram code 1 _ _ _ w hrun) (.here w))
  obtain ⟨hmoments, hruns⟩ := memo_cache_stays_consistent _ hreachable 0 m hcode
  obtain ⟨hconsistent, hroom⟩ := hmoments w hunderway
  refine ⟨_, m, w, hreachable, hcode, rfl, hunderway, hactive, rfl, hqueue, hconsistent, hroom 1 rfl, ?_⟩
  exact hruns _ _ 1 1 _ fun f args w' hw' => if_pos (hw'.within 1 rfl)

end RuntimeContracts
