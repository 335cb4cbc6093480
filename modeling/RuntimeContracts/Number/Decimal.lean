import RuntimeContracts.Number.Basic

/-!
Decimal text of numbers. A finite float is written with the fewest digits that read back as the same
float: among the multiples of powers of ten inside the interval of reals that round to it, one on the
coarsest grid is taken, of two on that grid the nearer one, and of two equally near ones the larger
one. A style then decides between positional and exponent notation.
-/
namespace RuntimeContracts

/-- The number `coefficient * 10 ^ exponent`. -/
structure Decimal where
  coefficient : Nat
  exponent : Int
deriving DecidableEq, Inhabited

namespace Binary64

/-- Magnitudes are counted in units of `2 ^ (-1076)`, a quarter of the least positive number, so
that the midpoints between neighbours are whole. -/
def magnitude (x : Binary64) : Nat := (4 * x.significand) <<< x.scale

/-- The midpoint to the next smaller magnitude, which is twice as close below a power of two. -/
def lowerMidpoint (x : Binary64) : Nat :=
  x.magnitude - ((if x.fraction = 0 ∧ 1 < x.biasedExponent then 1 else 2) <<< x.scale)

def upperMidpoint (x : Binary64) : Nat := x.magnitude + (2 <<< x.scale)

/-- Whether the fraction `m / d` of a unit rounds to the magnitude of `x`. The midpoints do so
exactly when the significand is even. -/
def covers (x : Binary64) (m d : Nat) : Bool :=
  if x.significand % 2 = 0 then x.lowerMidpoint * d ≤ m ∧ m ≤ x.upperMidpoint * d
  else x.lowerMidpoint * d < m ∧ m < x.upperMidpoint * d

/-- The multiple of `10 ^ g` nearest to the magnitude of `x`, if one reads back as `x`. A multiple
`c * 10 ^ g` is `c * step / d` units. -/
def onGrid? (x : Binary64) (g : Int) : Option Nat :=
  let step := Nat.pow 10 g.toNat <<< 1076
  let d := Nat.pow 10 (-g).toNat
  let value := x.magnitude * d
  let below := value / step
  match x.covers (below * step) d, x.covers ((below + 1) * step) d with
  | true, true =>
    if value - below * step < (below + 1) * step - value then some below else some (below + 1)
  | true, false => some below
  | false, true => some (below + 1)
  | false, false => none

/-- An exponent `g` with the magnitude of `x` below `10 ^ g`: the magnitude is below `2 ^ e`, and
`30103 / 100000` is close enough to the decimal logarithm of two for every exponent of a float. -/
def coarsestGrid (x : Binary64) : Int :=
  let e : Int := x.significand.log2 + 1 + x.scale - 1074
  e * 30103 / 100000 + 1

/-- The shortest decimal that reads back as the magnitude of a finite nonzero number. The grids are
tried from coarse to fine. The first of them is at most two above the leading digit, and seventeen
digits always suffice, so there is a hit among twenty. -/
def shortest (x : Binary64) : Decimal :=
  ((List.range 20).findSome? fun (i : Nat) =>
    let g := x.coarsestGrid - i
    (x.onGrid? g).map fun c => Decimal.mk c g).getD ⟨0, 0⟩

end Binary64

/-- How a decimal is laid out: whether a whole number shows a fractional zero, and at which
exponents of its leading digit a number is written without exponent notation. -/
structure DecimalStyle where
  showsPoint : Bool
  isPositional : Int → Bool

namespace DecimalStyle

/-- Plain text never uses an exponent and writes whole numbers without a point. -/
def plain : DecimalStyle := ⟨false, fun _ => true⟩

/-- Detailed text shows that a number is a float and is positional from `0.0001` to below
`10000000000000000`. -/
def detailed : DecimalStyle := ⟨true, fun e => -4 ≤ e && e < 16⟩

end DecimalStyle

namespace Decimal

def digits (n : Nat) : List Char := Nat.toDigits 10 n

def positional (style : DecimalStyle) (x : Decimal) : List Char :=
  let ds := digits x.coefficient
  let whole := ds.length + x.exponent
  if 0 ≤ x.exponent then
    ds ++ List.replicate x.exponent.toNat '0' ++ if style.showsPoint then ['.', '0'] else []
  else if 0 < whole then ds.take whole.toNat ++ '.' :: ds.drop whole.toNat
  else '0' :: '.' :: (List.replicate (-whole).toNat '0' ++ ds)

def ofInt (n : Int) : List Char :=
  if n < 0 then '-' :: digits n.natAbs else digits n.natAbs

def scientific (x : Decimal) : List Char :=
  match digits x.coefficient with
  | [] => []
  | d :: rest =>
    (d :: if rest.isEmpty then [] else '.' :: rest) ++ 'e' :: ofInt (x.exponent + rest.length)

/-- The exponent of the leading digit. -/
def leadingExponent (x : Decimal) : Int := x.exponent + (digits x.coefficient).length - 1

def text (style : DecimalStyle) (x : Decimal) : List Char :=
  if style.isPositional x.leadingExponent then x.positional style else x.scientific

end Decimal

/-- A NaN is written without its sign; every other float, zero included, with it. -/
def Binary64.text (style : DecimalStyle) (x : Binary64) : List Char :=
  if x.isNaN then ['N', 'a', 'N']
  else
    (if x.isNegative then ['-'] else []) ++
      if !x.isFinite then ['i', 'n', 'f']
      else if x.isZero then Decimal.text style ⟨0, 0⟩
      else x.shortest.text style

def Number.text (style : DecimalStyle) : Number → List Char
  | .int n => Decimal.ofInt n.toInt
  | .float x => x.text style

end RuntimeContracts
