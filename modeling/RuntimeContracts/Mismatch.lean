import RuntimeContracts.Text.Quoted

/-!
Why a call failed: its arguments or its result did not match what was declared, or its body raised an
error of its own. The message of an error is determined by its cause.
-/
namespace RuntimeContracts

inductive Location where
  /-- A positional argument, with the name of the parameter if it has one. -/
  | parameter (index : UInt64) (name : Option String)
  | result
deriving DecidableEq

namespace Location

def render : Location → String
  | parameter i (some name) => "parameter " ++ toString i.toNat ++ " (`" ++ name ++ "`)"
  | parameter i none => "parameter " ++ toString i.toNat
  | result => "return value"

end Location

structure Mismatch where
  /-- The name of the callable that was checked. -/
  function : String
  location : Location
  /-- The text of the spec that failed. -/
  expected : String
  /-- What was found: a kind, a class, or that the argument was left out. -/
  got : String
deriving DecidableEq

namespace Mismatch

def render (e : Mismatch) : String :=
  "type mismatch in `" ++ e.function ++ "`: " ++ e.location.render ++ " expected " ++ e.expected ++
    ", got " ++ e.got

end Mismatch

inductive CallError where
  | mismatch (e : Mismatch)
  | custom (message : String)
deriving DecidableEq

namespace CallError

def message : CallError → String
  | mismatch e => e.render
  | custom message => message

def mismatch? : CallError → Option Mismatch
  | mismatch e => some e
  | custom _ => none

def quoted (s : String) : String := String.ofList (Text.Quoted.quote s [])

def inspectLocation : Location → String
  | .parameter i name =>
    "Parameter \x7b index: " ++ toString i.toNat ++ ", name: " ++
      (match name with
        | some name => "Some(" ++ quoted name ++ ")"
        | none => "None") ++ " \x7d"
  | .result => "ReturnValue"

def inspectCause : CallError → String
  | mismatch e =>
    "TypeMismatch(TypeMismatch \x7b function: " ++ quoted e.function ++ ", location: " ++
      inspectLocation e.location ++ ", expected: " ++ quoted e.expected ++ ", got: " ++
      quoted e.got ++ " \x7d)"
  | custom message => "Custom \x7b message: " ++ quoted message ++ " \x7d"

/-- The detailed text: the cause and the message. -/
def inspect (e : CallError) : String :=
  "EvalError \x7b kind: " ++ inspectCause e ++ ", message: " ++ quoted e.message ++ " \x7d"

end CallError

end RuntimeContracts
