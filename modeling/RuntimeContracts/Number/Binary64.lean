/-!
Sixty-four bit binary floating point numbers, kept as their bit patterns. The pattern keeps the
payload of every NaN and the sign of zero. Classification, comparison by numeric value and the
rounding of an integer are exact integer arithmetic on the fields of the pattern: sign, eleven bits
of biased exponent, fifty-two bits of fraction.
-/
namespace RuntimeContracts

structure Binary64 where
  bits : UInt64
deriving DecidableEq, Inhabited

namespace Binary64

def isNegative (x : Binary64) : Bool := 1 <<< 63 ≤ x.bits.toNat

def biasedExponent (x : Binary64) : Nat := (x.bits.toNat >>> 52) % (1 <<< 11)

def fraction (x : Binary64) : Nat := x.bits.toNat % (1 <<< 52)

def isFinite (x : Binary64) : Bool := x.biasedExponent != 2047

def isNaN (x : Binary64) : Bool := x.biasedExponent == 2047 && x.fraction != 0

def isZero (x : Binary64) : Bool := x.bits.toNat % (1 <<< 63) == 0

/-- The integer part of a finite number's magnitude `significand * 2 ^ scale / 2 ^ 1074`. Only
numbers with a nonzero exponent field have the implicit leading bit. -/
def significand (x : Binary64) : Nat :=
  if x.biasedExponent = 0 then x.fraction else (1 <<< 52) + x.fraction

/-- The power of two, counted from the least positive number, that scales the significand. -/
def scale (x : Binary64) : Nat := x.biasedExponent - 1

/-- Equality of numeric values: a NaN equals nothing, the two zeros equal each other, and all other
numbers have one pattern each. -/
def numericEq (x y : Binary64) : Bool :=
  !x.isNaN && !y.isNaN && (x.bits == y.bits || x.isZero && y.isZero)

/-- The integer nearest to `n / 2 ^ s`; a tie goes to the even neighbour. -/
def roundShift (n s : Nat) : Nat :=
  let quotient := n >>> s
  let twice := 2 * (n % (1 <<< s))
  if twice < 1 <<< s ∨ (twice = 1 <<< s ∧ quotient % 2 = 0) then quotient else quotient + 1

/-- The pattern of the number nearest to a natural number below `2 ^ 1023`. The rounded significand
lies between `2 ^ 52` and `2 ^ 53`; its leading bit is added into the exponent field, and so is the
carry when rounding reaches `2 ^ 53`. -/
def patternOfNat (n : Nat) : Nat :=
  if n = 0 then 0
  else
    let e := n.log2
    let rounded := if e ≤ 52 then n <<< (52 - e) else roundShift n (e - 52)
    ((e + 1022) <<< 52) + rounded

/-- The number nearest to an integer of at most sixty-four bits. -/
def ofInt (n : Int) : Binary64 :=
  ⟨UInt64.ofNat (patternOfNat n.natAbs + if n < 0 then 1 <<< 63 else 0)⟩

end Binary64

end RuntimeContracts
