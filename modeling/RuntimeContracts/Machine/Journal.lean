import RuntimeContracts.Mismatch
import RuntimeContracts.Mode
import RuntimeContracts.Value.Basic

/-!
The journal of a run: every step of a cache, every start of a body and everything that is reported to
the outside, each with the wrapped calls that were in progress. The reports are a part of it.
-/
namespace RuntimeContracts

/-- The result of a call. -/
abbrev Outcome := Except CallError Value

/-- The steps of one cache. -/
inductive CacheStep where
  /-- The cache was asked for a result from outside of a call. -/
  | looked (args : List Value) (answer : Option Value)
  | measured (size : Nat)
  /-- A memoized call began. -/
  | called (args : List Value)
  /-- The call found a result. -/
  | hit (args : List Value) (v : Value)
  /-- The call found none and turns to the callable. -/
  | missed (args : List Value)
  /-- The callable answered a call that had missed. -/
  | answered (args : List Value) (outcome : Outcome)
  /-- An entry left to make room. -/
  | evicted (args : List Value)
  | stored (args : List Value) (v : Value) (isNew : Bool)
  | cleared (dropped : Nat)

inductive Event where
  /-- A body that is no wrapper began to run. -/
  | started (body : Nat) (args : List Value)
  | predicateRaised (predicate : String) (error : CallError)
  | violationIgnored (violation : Mismatch)
  | modeUnknown (error : UnknownMode)
  /-- A step of the cache of a memoizer, with the name of the function that it memoizes. -/
  | cache (memoizer : Nat) (function : String) (step : CacheStep)

structure Entry where
  event : Event
  /-- The names of the wrapped functions in progress, innermost first. -/
  within : List String

inductive Level where
  | trace
  | debug
  | warn
deriving DecidableEq

namespace Level

def name : Level → String
  | trace => "TRACE"
  | debug => "DEBUG"
  | warn => "WARN"

end Level

/-- An event as it is shown outside. -/
structure Report where
  level : Level
  message : String
  fields : List (String × String)

namespace Event

/-- The report of an event; most steps of a cache and the starts of bodies go unreported. -/
def report? : Event → Option Report
  | predicateRaised f e =>
    some ⟨.trace, "predicate raised", [("predicate", f), ("err", e.message)]⟩
  | violationIgnored e => some ⟨.warn, "contract violation ignored", [("err", e.render)]⟩
  | modeUnknown e => some ⟨.warn, "falling back to enforce", [("err", e.message)]⟩
  | cache _ _ (.hit _ _) => some ⟨.debug, "memo hit", []⟩
  | cache _ _ (.missed _) => some ⟨.debug, "memo miss", []⟩
  | cache _ f (.evicted _) => some ⟨.debug, "memo cache evicted oldest entry", [("function", f)]⟩
  | _ => none

/-- The body that an event says has started. -/
def startedBody? : Event → Option Nat
  | started body _ => some body
  | _ => none

end Event

end RuntimeContracts
