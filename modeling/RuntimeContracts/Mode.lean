import RuntimeContracts.Text.Quoted
import RuntimeContracts.Text.WhiteSpace

/-!
Validation modes: whether checks run at all and whether a failed one stops the call. A setting in text
form names a mode up to blanks around it and the case of ASCII letters; every other text, and no
text, stands for the strictest mode.
-/
namespace RuntimeContracts

inductive Mode where
  /-- A failed check is an error of the call. -/
  | enforce
  /-- A failed check is reported and ignored. -/
  | warn
  /-- Nothing is checked. -/
  | off
deriving DecidableEq

/-- A text that names no mode. -/
structure UnknownMode where
  text : String
deriving DecidableEq

namespace UnknownMode

def message (e : UnknownMode) : String :=
  "unknown validation mode `" ++ e.text ++ "` (expected enforce, warn, or off)"

def inspect (e : UnknownMode) : String :=
  "ParseModeError(" ++ String.ofList (Text.Quoted.quote e.text [')'])

end UnknownMode

namespace Mode

instance : Inhabited Mode := ⟨enforce⟩

def checks : Mode → Bool
  | off => false
  | _ => true

def raises : Mode → Bool
  | enforce => true
  | _ => false

def name : Mode → String
  | enforce => "enforce"
  | warn => "warn"
  | off => "off"

/-- The mode of exactly this name. -/
def ofName? (s : String) : Option Mode :=
  if s = "enforce" then some enforce
  else if s = "warn" then some warn
  else if s = "off" then some off
  else none

def parse (s : String) : Except UnknownMode Mode :=
  match ofName? (String.ofList ((Text.WhiteSpace.trim s.toList).map Char.toLower)) with
  | some m => .ok m
  | none => .error ⟨s⟩

/-- The mode of a setting, and what was wrong with the setting if it could not be read. -/
def ofSetting : Option String → Mode × Option UnknownMode
  | none => (enforce, none)
  | some s =>
    match parse s with
    | .ok m => (m, none)
    | .error e => (enforce, some e)

def inspect : Mode → String
  | enforce => "Enforce"
  | warn => "Warn"
  | off => "Off"

end Mode

end RuntimeContracts
