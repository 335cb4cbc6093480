import RuntimeContracts.Cache
import RuntimeContracts.Machine.Program
import RuntimeContracts.Value.Equality

/-!
Running programs. The code of a run is fixed: the bodies of all functions, which are programs or
wrappers, and all memoizers. What changes is the world: the caches, the supply of identities, the
calls in progress, the journal and the client state. A call runs at a depth of at most a given
number; one that would go deeper, or that names a function or memoizer the code does not have, has no
result.
-/
namespace RuntimeContracts

/-- A function with a cache for its results. -/
structure Memoizer where
  function : Callable
  policy : CachePolicy

inductive Body (σ : Type) where
  | program (run : List Value → Program σ Outcome)
  | validated (v : Validated)
  | memoized (memoizer : Nat)

structure Code (σ : Type) where
  bodies : Array (Body σ)
  memoizers : Array Memoizer

structure World (σ : Type) where
  nextIdentity : Nat
  /-- The caches in use, by the numbers of their memoizers. -/
  caches : List (Nat × Cache)
  /-- The names of the wrapped functions in progress, innermost first. -/
  active : List String
  /-- Newest first. -/
  journal : List Entry
  client : σ

namespace World

variable {σ : Type}

def start (s : σ) : World σ := ⟨0, [], [], [], s⟩

/-- The cache of a memoizer; one that was never written to is empty. -/
def cache (w : World σ) (memoizer : Nat) : Cache :=
  (w.caches.lookup memoizer).getD Cache.empty

def setCache (w : World σ) (memoizer : Nat) (c : Cache) : World σ :=
  { w with caches := Ascending.insert memoizer c w.caches }

def record (w : World σ) (event : Event) : World σ :=
  { w with journal := ⟨event, w.active⟩ :: w.journal }

end World

/-- Computations that change the world and may have no result. -/
abbrev Machine (σ : Type) := StateT (World σ) Option

namespace Machine

variable {σ α : Type}

def record (event : Event) : Machine σ Unit := modify (·.record event)

/-- Run a computation as a wrapped call of the function of this name. -/
def within (name : String) (act : Machine σ α) : Machine σ α := do
  let outer := (← get).active
  modify fun w => { w with active := name :: outer }
  let a ← act
  modify fun w => { w with active := outer }
  pure a

/-- How functions are called. -/
abbrev Caller (σ : Type) := Callable → List Value → Machine σ Outcome

/-- Whether a value passes a predicate: the predicate must return the very value. -/
def passes (call : Caller σ) (f : Callable) (v : Value) : Machine σ Bool := do
  match ← call f [v] with
  | .ok w => pure (w.same v)
  | .error e =>
    record (.predicateRaised f.name e)
    pure false

def fits (call : Caller σ) (s : Spec) (arg : Option Value) : Machine σ Bool :=
  s.fitsM (passes call) arg

/-- The violation that stops the call. A mode that does not raise reports it instead. -/
def settle (mode : Mode) : Option Mismatch → Machine σ (Option Mismatch)
  | none => pure none
  | some e =>
    if mode.raises then pure (some e)
    else do
      record (.violationIgnored e)
      pure none

def callValidated (call : Caller σ) (v : Validated) (args : List Value) : Machine σ Outcome :=
  within v.inner.name do
    let violation ←
      if v.mode.checks then
        v.signature.checkArgs (fits call) v.inner args >>= settle v.mode
      else pure none
    match violation with
    | some e => pure (.error (.mismatch e))
    | none =>
      match ← call v.inner args with
      | .error e => pure (.error e)
      | .ok result =>
        let violation ←
          if v.mode.checks then
            v.signature.checkReturn (fits call) v.inner result >>= settle v.mode
          else pure none
        match violation with
        | some e => pure (.error (.mismatch e))
        | none => pure (.ok result)

/-- The memoizer of a number. -/
def memoizer (code : Code σ) (i : Nat) : Machine σ Memoizer := fun w =>
  code.memoizers[i]?.map (·, w)

def recordCache (i : Nat) (m : Memoizer) (step : CacheStep) : Machine σ Unit :=
  record (.cache i m.function.name step)

def store (i : Nat) (m : Memoizer) (args : List Value) (v : Value) : Machine σ Unit := do
  let stored := ((← get).cache i).store m.policy args v
  modify (·.setCache i stored.cache)
  stored.evicted.forM fun key => recordCache i m (.evicted key)
  recordCache i m (.stored args v stored.isNew)

def callMemoized (code : Code σ) (call : Caller σ) (i : Nat) (args : List Value) :
    Machine σ Outcome := do
  let m ← memoizer code i
  within m.function.name do
    recordCache i m (.called args)
    match ((← get).cache i).lookup args with
    | some v =>
      recordCache i m (.hit args v)
      pure (.ok v)
    | none =>
      recordCache i m (.missed args)
      let outcome ← call m.function args
      recordCache i m (.answered args outcome)
      match outcome with
      | .ok v =>
        store i m args v
        pure (.ok v)
      | .error e => pure (.error e)

def lookup (code : Code σ) (i : Nat) (args : List Value) : Machine σ (Option Value) := do
  let m ← memoizer code i
  let answer := ((← get).cache i).lookup args
  recordCache i m (.looked args answer)
  pure answer

def clear (code : Code σ) (i : Nat) : Machine σ Unit := do
  let m ← memoizer code i
  let dropped := ((← get).cache i).size
  modify (·.setCache i Cache.empty)
  recordCache i m (.cleared dropped)

def size (code : Code σ) (i : Nat) : Machine σ Nat := do
  let m ← memoizer code i
  let n := ((← get).cache i).size
  recordCache i m (.measured n)
  pure n

def fresh : Machine σ Nat := do
  let n := (← get).nextIdentity
  modify fun w => { w with nextIdentity := n + 1 }
  pure n

/-- The answer to a request. -/
def answer (code : Code σ) (call : Caller σ) : (r : Request σ) → Machine σ r.Answer
  | .read => do return (← get).client
  | .write s => modify fun w => { w with client := s }
  | .fresh => fresh
  | .call f args => call f args
  | .fits s arg => fits call s arg
  | .callValidated v args => callValidated call v args
  | .callMemoized i args => callMemoized code call i args
  | .lookup i args => lookup code i args
  | .store i args v => do store i (← memoizer code i) args v
  | .clear i => clear code i
  | .size i => size code i
  | .complain e => record (.modeUnknown e)

def runProgram (code : Code σ) (call : Caller σ) : Program σ α → Machine σ α
  | .done a => pure a
  | .ask r next => do
    let a ← answer code call r
    runProgram code call (next a)

/-- Run the body of a function on its arguments. -/
def runBody (code : Code σ) (call : Caller σ) (f : Callable) (args : List Value) :
    Body σ → Machine σ Outcome
  | .program run => do
    record (.started f.body args)
    runProgram code call (run args)
  | .validated v => callValidated call v args
  | .memoized i => callMemoized code call i args

/-- Call a function, with at most `depth` calls inside of each other. -/
def call (code : Code σ) : (depth : Nat) → Caller σ
  | 0, _, _ => fun _ => none
  | depth + 1, f, args =>
    match code.bodies[f.body]? with
    | none => fun _ => none
    | some body => runBody code (call code depth) f args body

end Machine

end RuntimeContracts
