import RuntimeContracts.Number.Binary64

/-!
Numbers come in two representations, sixty-four bit integers and binary floating point. Two numbers
are numerically equal when they denote the same value, where an integer that meets a float is first
rounded to the nearest float; two integers are compared as integers.
-/
namespace RuntimeContracts

inductive Number where
  | int (n : Int64)
  | float (x : Binary64)
deriving DecidableEq

namespace Number

def toBinary64 : Number → Binary64
  | .int n => Binary64.ofInt n.toInt
  | .float x => x

def numericEq : Number → Number → Bool
  | .int a, .int b => a == b
  | a, b => a.toBinary64.numericEq b.toBinary64

def isNaN : Number → Bool
  | .int _ => false
  | .float x => x.isNaN

end Number

end RuntimeContracts
