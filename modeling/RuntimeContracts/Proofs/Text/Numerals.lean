import RuntimeContracts.Number.Decimal
import RuntimeContracts.Proofs.Text.Reading
import Mathlib.Data.Nat.Digits.Defs

/-!
Numerals. A number is written in one way in a base of at most sixteen, with letters and figures only, so it
can be read back up to the first character that is neither.
-/
namespace RuntimeContracts

namespace Text

theorem digitChar_inj {d e : Nat} (hd : d < 16) (he : e < 16) (h : d.digitChar = e.digitChar) : d = e := by
  have hall : ∀ d < 16, ∀ e < 16, Nat.digitChar d = Nat.digitChar e → d = e := by decide
  exact hall d hd e he h

theorem isAlphanum_digitChar {d : Nat} (hd : d < 16) : d.digitChar.isAlphanum := by
  have hall : ∀ d < 16, (Nat.digitChar d).isAlphanum := by decide
  exact hall d hd

/-- A single digit is shorter than the digits of a quotient with one more. -/
theorem singleton_ne_toDigits_append (base n : Nat) (c d : Char) : [c] ≠ Nat.toDigits base n ++ [d] := by
  intro h
  have hlength := congrArg List.length h
  have hpos : 0 < (Nat.toDigits base n).length := Nat.length_toDigits_pos
  simp only [List.length_append, List.length_singleton] at hlength
  omega

section Base

variable {base : Nat} (hbase : 1 < base) (hletters : base ≤ 16)

include hbase hletters

/-- The last digit comes off the end, and the others are those of the quotient. -/
theorem isAlphanum_of_mem_toDigits (n : Nat) : ∀ c ∈ Nat.toDigits base n, c.isAlphanum := by
  induction n using Nat.strong_induction_on with
  | _ n ih =>
    intro c hc
    rw [Nat.toDigits_eq_if hbase] at hc
    split at hc
    · obtain rfl := List.mem_singleton.mp hc
      exact isAlphanum_digitChar (by omega)
    · rcases List.mem_append.mp hc with hc | hc
      · exact ih (n / base) (Nat.div_lt_self (by omega) hbase) c hc
      · obtain rfl := List.mem_singleton.mp hc
        have hmod := Nat.mod_lt n (by omega : 0 < base)
        exact isAlphanum_digitChar (by omega)

theorem toDigits_inj {m n : Nat} (h : Nat.toDigits base m = Nat.toDigits base n) : m = n := by
  induction m using Nat.strong_induction_on generalizing n with
  | _ m ih =>
    have hmodm := Nat.mod_lt m (by omega : 0 < base)
    have hmodn := Nat.mod_lt n (by omega : 0 < base)
    rw [Nat.toDigits_eq_if hbase, Nat.toDigits_eq_if hbase (n := n)] at h
    split at h
    · split at h
      · exact digitChar_inj (by omega) (by omega) (List.singleton_inj.mp h)
      · exact absurd h (singleton_ne_toDigits_append base _ _ _)
    · split at h
      · exact absurd h.symm (singleton_ne_toDigits_append base _ _ _)
      · obtain ⟨hhigh, hlow⟩ := List.append_inj' h rfl
        have hdiv := ih (m / base) (Nat.div_lt_self (by omega) hbase) hhigh
        have hmod := digitChar_inj (by omega) (by omega) (List.singleton_inj.mp hlow)
        rw [← Nat.div_add_mod m base, ← Nat.div_add_mod n base, hdiv, hmod]

theorem toDigits_append_inj {m n : Nat} {rest rest' : List Char} (hrest : Stops Char.isAlphanum rest)
    (hrest' : Stops Char.isAlphanum rest')
    (h : Nat.toDigits base m ++ rest = Nat.toDigits base n ++ rest') : m = n ∧ rest = rest' := by
  obtain ⟨hdigits, hafter⟩ := word_append_inj (isAlphanum_of_mem_toDigits hbase hletters m)
    (isAlphanum_of_mem_toDigits hbase hletters n) hrest hrest' h
  exact ⟨toDigits_inj hbase hletters hdigits, hafter⟩

end Base

end Text

namespace Decimal

open Text

theorem digits_append_inj {m n : Nat} {rest rest' : List Char} (hrest : Stops Char.isAlphanum rest)
    (hrest' : Stops Char.isAlphanum rest') (h : digits m ++ rest = digits n ++ rest') :
    m = n ∧ rest = rest' :=
  toDigits_append_inj (by decide) (by decide) hrest hrest' h

/-- No digits begin with a minus sign. -/
theorem digits_append_ne (n : Nat) (rest rest' : List Char) : digits n ++ rest ≠ '-' :: rest' := by
  intro h
  cases hdigits : digits n with
  | nil => exact Nat.toDigits_ne_nil hdigits
  | cons c more =>
    rw [hdigits] at h
    obtain rfl : c = '-' := (List.cons.inj h).1
    have hmem : '-' ∈ Nat.toDigits 10 n := by
      change '-' ∈ digits n
      rw [hdigits]
      exact List.mem_cons_self ..
    have hsign := isAlphanum_of_mem_toDigits (by decide) (by decide) n '-' hmem
    exact absurd hsign (by decide)

/-- An integer is written in one way. -/
theorem ofInt_append_inj {m n : Int} {rest rest' : List Char} (hrest : Stops Char.isAlphanum rest)
    (hrest' : Stops Char.isAlphanum rest') (h : ofInt m ++ rest = ofInt n ++ rest') :
    m = n ∧ rest = rest' := by
  unfold ofInt at h
  split at h
  · split at h
    · obtain ⟨hmagnitude, hafter⟩ := digits_append_inj hrest hrest' (List.cons.inj h).2
      exact ⟨by omega, hafter⟩
    · exact absurd h.symm (digits_append_ne n.natAbs rest' _)
  · split at h
    · exact absurd h (digits_append_ne m.natAbs rest _)
    · obtain ⟨hmagnitude, hafter⟩ := digits_append_inj hrest hrest' h
      exact ⟨by omega, hafter⟩

end Decimal

end RuntimeContracts
