import RuntimeContracts.Ascending
import RuntimeContracts.Callable
import RuntimeContracts.Class
import RuntimeContracts.Kind
import RuntimeContracts.Number.Basic

/-!
Runtime values. Lists, records and instances carry the identity of their allocation, which strict
sameness looks at and the other comparisons do not. Records and instances keep their fields in
ascending order of names with one field a name.
-/
namespace RuntimeContracts

inductive Value where
  | undefined
  | null
  | bool (b : Bool)
  | number (n : Number)
  | string (s : String)
  | list (id : Nat) (items : List Value)
  | record (id : Nat) (fields : List (String × Value))
  | inst (cls : Class) (id : Nat) (fields : List (String × Value))
  | function (f : Callable)

namespace Value

instance : Inhabited Value := ⟨undefined⟩

def int (n : Int64) : Value := number (.int n)

def float (x : Binary64) : Value := number (.float x)

/-- A record of the given entries, of which later ones win over earlier ones of the same name. -/
def ofEntries (id : Nat) (entries : List (String × Value)) : Value :=
  record id (Ascending.ofEntries entries)

/-- An instance of a class with the given entries for its fields. -/
def instantiate (cls : Class) (id : Nat) (entries : List (String × Value)) : Value :=
  inst cls id (Ascending.ofEntries entries)

def kind : Value → Kind
  | undefined => .undefined
  | null => .null
  | bool _ => .bool
  | number _ => .number
  | string _ => .string
  | list _ _ => .list
  | record _ _ => .record
  | inst _ _ _ => .inst
  | function _ => .function

/-- What a diagnostic says was found: the kind, or the class of an instance. -/
def describe : Value → String
  | inst cls _ _ => cls.name
  | v => v.kind.name

def isUndefined : Value → Bool
  | undefined => true
  | _ => false

def isNull : Value → Bool
  | null => true
  | _ => false

def bool? : Value → Option Bool
  | bool b => some b
  | _ => none

def int? : Value → Option Int64
  | number (.int n) => some n
  | _ => none

/-- The number as a float; an integer is rounded to the nearest one. -/
def float? : Value → Option Binary64
  | number n => some n.toBinary64
  | _ => none

def string? : Value → Option String
  | string s => some s
  | _ => none

def items? : Value → Option (List Value)
  | list _ items => some items
  | _ => none

def record? : Value → Option (List (String × Value))
  | record _ fields => some fields
  | _ => none

def inst? : Value → Option (Class × List (String × Value))
  | inst cls _ fields => some (cls, fields)
  | _ => none

def function? : Value → Option Callable
  | function f => some f
  | _ => none

/-- The named fields of a record or an instance. -/
def fields? : Value → Option (List (String × Value))
  | record _ fields => some fields
  | inst _ _ fields => some fields
  | _ => none

/-- The field of a record or an instance, if it has one of that name. -/
def field? (v : Value) (name : String) : Option Value :=
  match v.fields? with
  | some fields => fields.lookup name
  | none => none

/-- Whether the value is an instance of the class or of one of its subclasses. -/
def isInstanceOf (v : Value) (cls : Class) : Bool :=
  match v with
  | inst own _ _ => own.isSubclassOf cls
  | _ => false

end Value

end RuntimeContracts
