import Mathlib.Algebra.Group.Nat.Defs
import RuntimeContracts.Number.Binary64

/-!
Rounding of integers to floats. The pattern of a positive integer lies in the binade of its leading bit, so
it is never that of a NaN or of zero, and up to `2 ^ 53` different integers have different patterns.
-/
namespace RuntimeContracts.Binary64

section Magnitudes

variable {m n : Nat}

/-- A shifted significand keeps its leading bit, but for a carry. -/
theorem roundShift_bounds {s : Nat} (hlow : 2 ^ (52 + s) ≤ n) (hhigh : n < 2 ^ (53 + s)) :
    2 ^ 52 ≤ roundShift n s ∧ roundShift n s ≤ 2 ^ 53 := by
  rw [Nat.pow_add] at hlow hhigh
  have hlower : 2 ^ 52 ≤ n / 2 ^ s := (Nat.le_div_iff_mul_le (Nat.two_pow_pos s)).mpr hlow
  have hupper : n / 2 ^ s < 2 ^ 53 := (Nat.div_lt_iff_lt_mul (Nat.two_pow_pos s)).mpr hhigh
  simp only [roundShift, Nat.shiftRight_eq_div_pow]
  split <;> omega

/-- Up to fifty-three bits nothing is rounded. -/
theorem patternOfNat_eq (hn : n ≠ 0) (h : n < 2 ^ 53) :
    patternOfNat n = (n.log2 + 1022) * 2 ^ 52 + n * 2 ^ (52 - n.log2) := by
  have hlog : n.log2 < 53 := (Nat.log2_lt hn).mpr h
  simp only [patternOfNat, if_neg hn, if_pos (show n.log2 ≤ 52 by omega), Nat.shiftLeft_eq]

/-- A number below the next power of two stays below the next binade if it is not rounded. -/
theorem patternOfNat_lt (hn : n ≠ 0) (h : n < 2 ^ 53) :
    patternOfNat n < (n.log2 + 1024) * 2 ^ 52 := by
  have hlog : n.log2 < 53 := (Nat.log2_lt hn).mpr h
  have hscaled : n * 2 ^ (52 - n.log2) < 2 ^ 53 := by
    calc
      n * 2 ^ (52 - n.log2) < 2 ^ (n.log2 + 1) * 2 ^ (52 - n.log2) :=
        Nat.mul_lt_mul_of_pos_right Nat.lt_log2_self (Nat.two_pow_pos _)
      _ = 2 ^ 53 := by rw [← Nat.pow_add]; congr 1; omega
  rw [patternOfNat_eq hn h]
  omega

/-- The pattern of a positive number lies in the binade of its leading bit, or at its upper end. -/
theorem patternOfNat_bounds (hn : n ≠ 0) : (n.log2 + 1023) * 2 ^ 52 ≤ patternOfNat n ∧
    patternOfNat n ≤ (n.log2 + 1024) * 2 ^ 52 := by
  have hlow : 2 ^ n.log2 ≤ n := Nat.log2_self_le hn
  by_cases hlog : n.log2 ≤ 52
  · have hsmall : n < 2 ^ 53 := (Nat.log2_lt hn).mp (by omega)
    have hscaled : 2 ^ 52 ≤ n * 2 ^ (52 - n.log2) := by
      calc
        2 ^ 52 = 2 ^ n.log2 * 2 ^ (52 - n.log2) := by rw [← Nat.pow_add]; congr 1; omega
        _ ≤ n * 2 ^ (52 - n.log2) := Nat.mul_le_mul_right _ hlow
    have hlt := patternOfNat_lt hn hsmall
    rw [patternOfNat_eq hn hsmall] at hlt ⊢
    omega
  · have hhigh : n < 2 ^ (n.log2 + 1) := Nat.lt_log2_self
    rw [show n.log2 = 52 + (n.log2 - 52) by omega] at hlow
    rw [show n.log2 + 1 = 53 + (n.log2 - 52) by omega] at hhigh
    obtain ⟨hlower, hupper⟩ := roundShift_bounds hlow hhigh
    simp only [patternOfNat, if_neg hn, if_neg hlog, Nat.shiftLeft_eq]
    clear hlow hhigh
    omega

theorem patternOfNat_pos (hn : n ≠ 0) : 0 < patternOfNat n := by
  have hbounds := patternOfNat_bounds hn
  omega

/-- Up to `2 ^ 53` rounding keeps the order. -/
theorem patternOfNat_strictMono (hlt : m < n) (hn : n ≤ 2 ^ 53) : patternOfNat m < patternOfNat n := by
  have hn0 : n ≠ 0 := by omega
  by_cases hm : m = 0
  · subst hm
    exact patternOfNat_pos hn0
  have hm53 : m < 2 ^ 53 := by omega
  have hlog : m.log2 ≤ n.log2 :=
    (Nat.le_log2 hn0).mpr (Nat.le_trans (Nat.log2_self_le hm) (Nat.le_of_lt hlt))
  by_cases hsame : m.log2 = n.log2
  · have hn53 : n < 2 ^ 53 := (Nat.log2_lt hn0).mp (hsame ▸ (Nat.log2_lt hm).mpr hm53)
    have hscaled : m * 2 ^ (52 - n.log2) < n * 2 ^ (52 - n.log2) :=
      Nat.mul_lt_mul_of_pos_right hlt (Nat.two_pow_pos _)
    rw [patternOfNat_eq hm hm53, patternOfNat_eq hn0 hn53, hsame]
    omega
  · calc
      patternOfNat m < (m.log2 + 1024) * 2 ^ 52 := patternOfNat_lt hm hm53
      _ ≤ (n.log2 + 1023) * 2 ^ 52 := Nat.mul_le_mul_right _ (by omega)
      _ ≤ patternOfNat n := (patternOfNat_bounds hn0).1

/-- Up to `2 ^ 53` no two numbers are rounded to the same float. -/
theorem patternOfNat_inj (hm : m ≤ 2 ^ 53) (hn : n ≤ 2 ^ 53) (h : patternOfNat m = patternOfNat n) :
    m = n := by
  rcases Nat.lt_trichotomy m n with hlt | heq | hgt
  · exact absurd h (Nat.ne_of_lt (patternOfNat_strictMono hlt hn))
  · exact heq
  · exact absurd h (Nat.ne_of_gt (patternOfNat_strictMono hgt hm))

/-- An integer of at most sixty-four bits is rounded to a finite number. -/
theorem patternOfNat_lt_of_lt_two_pow (h : n < 2 ^ 64) : patternOfNat n < 1089 * 2 ^ 52 := by
  by_cases hn : n = 0
  · subst hn
    decide
  · have hlog : n.log2 < 64 := (Nat.log2_lt hn).mpr h
    have hbounds := patternOfNat_bounds hn
    omega

end Magnitudes

section Integers

variable {m n : Int} (hm : m.natAbs < 2 ^ 64) (hn : n.natAbs < 2 ^ 64)

include hn

theorem toNat_bits_ofInt :
    (ofInt n).bits.toNat = patternOfNat n.natAbs + if n < 0 then 2 ^ 63 else 0 := by
  have hpattern := patternOfNat_lt_of_lt_two_pow hn
  simp only [ofInt, Nat.shiftLeft_eq, Nat.one_mul, UInt64.toNat_ofNat']
  apply Nat.mod_eq_of_lt
  split <;> omega

theorem isNaN_ofInt : (ofInt n).isNaN = false := by
  have hpattern := patternOfNat_lt_of_lt_two_pow hn
  have hexponent : (ofInt n).biasedExponent ≠ 2047 := by
    simp only [biasedExponent, toNat_bits_ofInt hn, Nat.shiftRight_eq_div_pow, Nat.shiftLeft_eq]
    split <;> omega
  simp [isNaN, hexponent]

/-- Only zero is rounded to a zero. -/
theorem isZero_ofInt_iff : (ofInt n).isZero = true ↔ n = 0 := by
  have hpattern := patternOfNat_lt_of_lt_two_pow hn
  have hmagnitude : (ofInt n).bits.toNat % 2 ^ 63 = patternOfNat n.natAbs := by
    rw [toNat_bits_ofInt hn]
    split <;> omega
  simp only [isZero, Nat.shiftLeft_eq, Nat.one_mul, hmagnitude, beq_iff_eq]
  constructor
  · intro hzero
    by_cases hn0 : n.natAbs = 0
    · exact Int.natAbs_eq_zero.mp hn0
    · exact absurd hzero (Nat.ne_of_gt (patternOfNat_pos hn0))
  · rintro rfl
    rfl

include hm in
/-- Integers of one pattern have the same sign, and their magnitudes one pattern. -/
theorem sign_eq_of_ofInt_eq (h : (ofInt m).bits = (ofInt n).bits) :
    (m < 0 ↔ n < 0) ∧ patternOfNat m.natAbs = patternOfNat n.natAbs := by
  have hbits := congrArg UInt64.toNat h
  rw [toNat_bits_ofInt hm, toNat_bits_ofInt hn] at hbits
  have hpattern := patternOfNat_lt_of_lt_two_pow hm
  have hpattern' := patternOfNat_lt_of_lt_two_pow hn
  constructor <;> split at hbits <;> split at hbits <;> omega

end Integers

/-- Up to `2 ^ 53` in magnitude, different integers are rounded to different numbers. -/
theorem eq_of_numericEq_ofInt {m n : Int} (hm : m.natAbs ≤ 2 ^ 53) (hn : n.natAbs ≤ 2 ^ 53)
    (h : (ofInt m).numericEq (ofInt n) = true) : m = n := by
  have hm64 : m.natAbs < 2 ^ 64 := by omega
  have hn64 : n.natAbs < 2 ^ 64 := by omega
  simp only [numericEq, Bool.and_eq_true, Bool.or_eq_true, beq_iff_eq] at h
  rcases h.2 with hbits | ⟨hzero, hzero'⟩
  · obtain ⟨hsign, hpattern⟩ := sign_eq_of_ofInt_eq hm64 hn64 hbits
    have hmagnitude := patternOfNat_inj hm hn hpattern
    omega
  · rw [(isZero_ofInt_iff hm64).mp hzero, (isZero_ofInt_iff hn64).mp hzero']

end RuntimeContracts.Binary64
