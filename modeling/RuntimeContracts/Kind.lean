/-!
The nine kinds of runtime values.
-/
namespace RuntimeContracts

inductive Kind where
  | undefined
  | null
  | bool
  | number
  | string
  | list
  | record
  | inst
  | function
deriving DecidableEq

namespace Kind

def name : Kind → String
  | undefined => "undefined"
  | null => "null"
  | bool => "boolean"
  | number => "number"
  | string => "string"
  | list => "array"
  | record => "object"
  | inst => "instance"
  | function => "function"

/-- Every kind, in the order of their declaration. -/
def all : List Kind :=
  [undefined, null, bool, number, string, list, record, inst, function]

end Kind

end RuntimeContracts
