import RuntimeContracts.Value.Basic

/-!
Hashing of values, up to the choice of the hash function: the sequence of writes that a value feeds to
a hasher. A value starts with the number of its variant, a sequence with its length, and a text ends
with a byte that occurs in no UTF-8 text, so that the writes of one value never begin those of
another. Classes and function bodies are written as identities.
-/
namespace RuntimeContracts

inductive HashWrite where
  | variant (index : Nat)
  | byte (b : UInt8)
  | word (w : UInt64)
  | length (n : Nat)
  | bytes (text : List UInt8)
  | classIdentity (id : Nat)
  | bodyIdentity (id : Nat)
deriving DecidableEq

namespace Value

def feedText (s : String) (rest : List HashWrite) : List HashWrite :=
  .bytes s.toUTF8.data.toList :: .byte 0xFF :: rest

mutual

/-- The writes of a value, followed by `rest`. -/
def feed : Value → List HashWrite → List HashWrite
  | undefined, rest => .variant 0 :: rest
  | null, rest => .variant 1 :: rest
  | bool b, rest => .variant 2 :: .byte (if b then 1 else 0) :: rest
  | number (.int n), rest => .variant 3 :: .word n.toUInt64 :: rest
  | number (.float x), rest => .variant 4 :: .word x.bits :: rest
  | string s, rest => .variant 5 :: feedText s rest
  | list _ items, rest => .variant 6 :: .length items.length :: feedItems items rest
  | record _ fields, rest => .variant 7 :: .length fields.length :: feedFields fields rest
  | inst cls _ fields, rest =>
    .variant 8 :: .classIdentity cls.id :: .length fields.length :: feedFields fields rest
  | function f, rest => .variant 9 :: .bodyIdentity f.body :: rest

def feedItems : List Value → List HashWrite → List HashWrite
  | [], rest => rest
  | v :: vs, rest => feed v (feedItems vs rest)

def feedFields : List (String × Value) → List HashWrite → List HashWrite
  | [], rest => rest
  | (k, v) :: es, rest => feedText k (feed v (feedFields es rest))

end

def writes (v : Value) : List HashWrite := feed v []

/-- The writes of an argument list, which is hashed as one sequence. -/
def writesOfArgs (args : List Value) : List HashWrite := .length args.length :: feedItems args []

end Value

end RuntimeContracts
