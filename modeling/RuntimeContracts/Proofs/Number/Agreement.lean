import RuntimeContracts.Number.Basic
import RuntimeContracts.Proofs.Number.Rounding

/-!
Numeric equality. On floats it is transitive and symmetric, and a number equals itself unless it is a NaN.
An integer agrees with the floats that its rounding equals, and with no other integer; so two integers that
are rounded alike agree with one float but not with each other. Nothing else keeps numeric equality from
being transitive, and it takes an integer beyond `2 ^ 53`.
-/
namespace RuntimeContracts

namespace Binary64

variable {x y z : Binary64}

theorem numericEq_iff : x.numericEq y = true ↔
    x.isNaN = false ∧ y.isNaN = false ∧ (x.bits = y.bits ∨ x.isZero = true ∧ y.isZero = true) := by
  simp [numericEq, and_assoc]

theorem numericEq_symm (h : x.numericEq y = true) : y.numericEq x = true := by
  obtain ⟨hx, hy, hbits | ⟨hzero, hzero'⟩⟩ := numericEq_iff.mp h
  · exact numericEq_iff.mpr ⟨hy, hx, Or.inl hbits.symm⟩
  · exact numericEq_iff.mpr ⟨hy, hx, Or.inr ⟨hzero', hzero⟩⟩

theorem isZero_eq_of_bits_eq (h : x.bits = y.bits) : x.isZero = y.isZero := by
  simp only [isZero, h]

/-- Among floats the relation is transitive; it is only integers that rounding merges. -/
theorem numericEq_trans (hxy : x.numericEq y = true) (hyz : y.numericEq z = true) :
    x.numericEq z = true := by
  obtain ⟨hx, -, hleft⟩ := numericEq_iff.mp hxy
  obtain ⟨-, hz, hright⟩ := numericEq_iff.mp hyz
  refine numericEq_iff.mpr ⟨hx, hz, ?_⟩
  rcases hleft with hbits | ⟨hzero, hzero'⟩
  · rcases hright with hbits' | ⟨hzero', hzero''⟩
    · exact Or.inl (hbits.trans hbits')
    · exact Or.inr ⟨(isZero_eq_of_bits_eq hbits).trans hzero', hzero''⟩
  · rcases hright with hbits' | ⟨-, hzero''⟩
    · exact Or.inr ⟨hzero, (isZero_eq_of_bits_eq hbits').symm.trans hzero'⟩
    · exact Or.inr ⟨hzero, hzero''⟩

theorem numericEq_self (x : Binary64) : x.numericEq x = !x.isNaN := by
  simp [numericEq]

end Binary64

namespace Number

theorem natAbs_toInt_lt (i : Int64) : i.toInt.natAbs < 2 ^ 64 := by
  have hlow := i.le_toInt
  have hhigh := i.toInt_lt
  omega

theorem numericEq_int (i j : Int64) : (int i).numericEq (int j) = (i == j) := rfl

/-- Unless both are integers, numbers are compared after rounding. -/
theorem numericEq_of_isFloat {m n : Number} (h : ∀ i j, ¬ (m = int i ∧ n = int j)) :
    m.numericEq n = m.toBinary64.numericEq n.toBinary64 := by
  cases m with
  | int i =>
    cases n with
    | int j => exact absurd ⟨rfl, rfl⟩ (h i j)
    | float y => rfl
  | float x => rfl

/-- Numbers that agree also agree after rounding. -/
theorem numericEq_toBinary64 {m n : Number} (h : m.numericEq n = true) :
    m.toBinary64.numericEq n.toBinary64 = true := by
  cases m with
  | int i =>
    cases n with
    | int j =>
      obtain rfl : i = j := by simpa [numericEq_int] using h
      rw [Binary64.numericEq_self, toBinary64, Binary64.isNaN_ofInt (natAbs_toInt_lt i)]
      rfl
    | float y => exact h
  | float x => exact h

theorem numericEq_symm {m n : Number} (h : m.numericEq n = true) : n.numericEq m = true := by
  cases m with
  | int i =>
    cases n with
    | int j =>
      obtain rfl : i = j := by simpa [numericEq_int] using h
      exact h
    | float y => exact Binary64.numericEq_symm h
  | float x =>
    cases n with
    | int j => exact Binary64.numericEq_symm h
    | float y => exact Binary64.numericEq_symm h

theorem numericEq_self (n : Number) : n.numericEq n = !n.isNaN := by
  cases n with
  | int i => simp [numericEq_int, isNaN]
  | float x => exact Binary64.numericEq_self x

/-- Two different integers that are rounded to the same float. -/
structure Merges (i j : Int64) : Prop where
  ne : i ≠ j
  rounded : (Binary64.ofInt i.toInt).numericEq (Binary64.ofInt j.toInt) = true

/-- One of two different integers that are rounded alike lies beyond `2 ^ 53`. -/
theorem Merges.large {i j : Int64} (h : Merges i j) :
    2 ^ 53 < i.toInt.natAbs ∨ 2 ^ 53 < j.toInt.natAbs := by
  by_cases hi : 2 ^ 53 < i.toInt.natAbs
  · exact Or.inl hi
  · by_cases hj : 2 ^ 53 < j.toInt.natAbs
    · exact Or.inr hj
    · have heq : i.toInt = j.toInt :=
        Binary64.eq_of_numericEq_ofInt (Nat.not_lt.mp hi) (Nat.not_lt.mp hj) h.rounded
      exact absurd (Int64.toInt_inj.mp heq) h.ne

def Clash (m n : Number) : Prop := ∃ i j, m = int i ∧ n = int j ∧ Merges i j

/-- Numeric equality is transitive but for integers that are rounded alike. -/
theorem numericEq_trans_iff {l m n : Number} (hlm : l.numericEq m = true) (hmn : m.numericEq n = true) :
    l.numericEq n = true ↔ ¬ Clash l n := by
  have hrounded : l.toBinary64.numericEq n.toBinary64 = true :=
    Binary64.numericEq_trans (numericEq_toBinary64 hlm) (numericEq_toBinary64 hmn)
  by_cases hints : ∃ i j, l = int i ∧ n = int j
  · obtain ⟨i, j, rfl, rfl⟩ := hints
    constructor
    · rintro heq ⟨i', j', hi, hj, hmerges⟩
      cases hi
      cases hj
      exact hmerges.ne (by simpa [numericEq_int] using heq)
    · intro hclash
      rw [numericEq_int, beq_iff_eq]
      exact Decidable.byContradiction fun hne => hclash ⟨i, j, rfl, rfl, hne, hrounded⟩
  · rw [numericEq_of_isFloat fun i j h => hints ⟨i, j, h⟩]
    refine ⟨fun _ => ?_, fun _ => hrounded⟩
    rintro ⟨i, j, hl, hn, -⟩
    exact hints ⟨i, j, hl, hn⟩

end Number

end RuntimeContracts
