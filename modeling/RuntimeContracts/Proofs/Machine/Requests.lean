import RuntimeContracts.Proofs.Machine.Reachable
import RuntimeContracts.Proofs.Machine.Underway

/-!
Requests at the moments of a run. A program goes on from a request with the answer to it, in the world that the
answer leaves. A call through a memoizer does the same whether a program asks for it or calls a function made from
the memoizer, and at whatever moment: between two runs, or while other calls of the memoizer are in progress.
-/
namespace RuntimeContracts

variable {σ α : Type}

namespace World

/-- However a program goes on after the request, it goes on with this answer and from the second world. -/
def Gets (w : World σ) (code : Code σ) (call : Machine.Caller σ) (ask : Program σ α) (a : α) (w' : World σ) :
    Prop :=
  ∀ (β : Type) (next : α → Program σ β),
    Machine.runProgram code call (ask >>= next) w = Machine.runProgram code call (next a) w'

/-- What all calls through memoizer `i` do in this world, if this is what its cache has. -/
structure Serves (w : World σ) (code : Code σ) (i : Nat) (m : Memoizer) (found : Key → Option Value) : Prop where
  /-- What is found is the result, and no function is called. -/
  hit : ∀ (call : Machine.Caller σ) args v, found args = some v →
    Machine.callMemoized code call i args w = some (.ok v, w.hitting i m args v)
  /-- Else the function is called once, and the call has a result if and only if the function does. -/
  missed : ∀ (call : Machine.Caller σ) args, found args = none →
    Machine.callMemoized code call i args w = (call m.function args (w.missing i m args)).map fun r =>
      (r.1, (r.2.concluding i m args r.1).withActive w.active)
  handled : ∀ f : Callable, code.bodies[f.body]? = some (.memoized i) → ∀ depth args,
    Machine.call code (depth + 1) f args w = Machine.callMemoized code (Machine.call code depth) i args w
  requested : ∀ (call : Machine.Caller σ) args (β : Type) (next : Outcome → Program σ β),
    Machine.runProgram code call (Program.callMemoized i args >>= next) w =
      (Machine.callMemoized code call i args >>= fun outcome => Machine.runProgram code call (next outcome)) w
  /-- So it is with the functions that a program calls, and those made from the memoizer are among them. -/
  called : ∀ (call : Machine.Caller σ) f args (β : Type) (next : Outcome → Program σ β),
    Machine.runProgram code call (Program.call f args >>= next) w =
      (call f args >>= fun outcome => Machine.runProgram code call (next outcome)) w

end World

namespace Machine

variable {code : Code σ} {call : Caller σ}

/-- A program goes on with the answer to what it asks first. -/
theorem runProgram_request (r : Request σ) (next : r.Answer → Program σ α) :
    runProgram code call (Program.request r >>= next) =
      answer code call r >>= fun a => runProgram code call (next a) := by
  rw [runProgram_bind]
  exact congrArg (· >>= _) (bind_pure (answer code call r))

theorem gets_of_answer {r : Request σ} {w w' : World σ} {a : r.Answer}
    (h : answer code call r w = some (a, w')) : w.Gets code call (Program.request r) a w' := by
  intro β next
  rw [runProgram_request, bind_apply, h]
  rfl

end Machine

/-- Every world serves what its cache has. -/
theorem World.serves {code : Code σ} {i : Nat} {m : Memoizer} (hm : code.memoizers[i]? = some m) (w : World σ) :
    w.Serves code i m (w.cache i).lookup where
  hit call args v hfound := by
    rw [Machine.callMemoized_eq code call i m args w hm, hfound]
  missed call args hnone := by
    rw [Machine.callMemoized_eq code call i m args w hm, hnone]
  handled f hf depth args := by
    rw [Machine.call_memoized code i args depth f hf]
  requested call args β next :=
    congrFun (Machine.runProgram_request (.callMemoized i args) next) w
  called call f args β next :=
    congrFun (Machine.runProgram_request (.call f args) next) w

namespace Engine.Reachable

variable {e : Engine σ} (he : e.Reachable) {i : Nat} {m : Memoizer} (hm : e.code.memoizers[i]? = some m)
  {w : World σ} (hw : e.world.Underway e.code w)

include he hm hw

/-- The journal of any moment has the steps that have led from the empty cache to the one of this moment. -/
theorem openTrace : OpenTrace m.policy Cache.empty (w.steps i) (w.cache i) := by
  obtain ⟨steps, hsteps, hlater⟩ := hw.exists_openTrace hm
  rw [hsteps]
  exact .after (he.trace i m hm) hlater

/-- No cache is ever out of step, in the middle of calls as little as between runs. -/
theorem wellFormed_underway : (w.cache i).WellFormed m.policy :=
  (he.openTrace hm hw).wellFormed (Cache.wellFormed_empty m.policy)

end Engine.Reachable

end RuntimeContracts
