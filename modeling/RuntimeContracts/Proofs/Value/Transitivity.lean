import RuntimeContracts.Proofs.Value.Numbers
import RuntimeContracts.Proofs.Value.Sameness

/-!
How far numeric agreement and strict sameness are transitive. A float may agree with two integers that do
not agree with each other, as both are rounded to it; where this does not happen, both comparisons are
transitive. It does not happen among integers up to `2 ^ 53` in magnitude.
-/
namespace RuntimeContracts.Value

open Number

/-- At one place the values have two different integers that are rounded to the same float. -/
def Clashes (a c : Value) : Prop := ∃ p ∈ a.numbers.zip c.numbers, p.1.Clash p.2

/-- No integer in the value lies beyond `2 ^ 53`, up to which floats represent them all. -/
def Exact (v : Value) : Prop := ∀ i : Int64, .int i ∈ v.numbers → i.toInt.natAbs ≤ 2 ^ 53

theorem not_clashes_of_exact {a c : Value} (ha : a.Exact) (hc : c.Exact) : ¬ a.Clashes c := by
  rintro ⟨⟨m, n⟩, hp, i, j, rfl, rfl, hmerges⟩
  obtain ⟨hi, hj⟩ := List.of_mem_zip hp
  rcases hmerges.large with hlarge | hlarge
  · exact absurd (ha i hi) (Nat.not_le.mpr hlarge)
  · exact absurd (hc j hj) (Nat.not_le.mpr hlarge)

theorem clashes_number_iff {m n : Number} : (number m).Clashes (number n) ↔ m.Clash n := by
  simp [Clashes, numbers]

/-- Lists of numbers that agree with one list agree where they have no two integers rounded alike. -/
theorem numbersAgree_trans_iff {ls ms ns : List Number} (hlm : NumbersAgree ls ms)
    (hmn : NumbersAgree ms ns) : NumbersAgree ls ns ↔ ¬ ∃ p ∈ ls.zip ns, p.1.Clash p.2 := by
  induction hlm generalizing ns with
  | nil =>
    obtain rfl := List.forall₂_nil_left_iff.mp hmn
    simp [NumbersAgree]
  | cons hl _ ih =>
    cases hmn with
    | cons hn hrest =>
      rw [numbersAgree_cons_iff, numericEq_trans_iff hl hn, ih hrest]
      simp

/-- Agreement carries over unless two integers clash. -/
theorem agrees_trans_iff {a b c : Value} (hab : agrees a b = true) (hbc : agrees b c = true) :
    agrees a c = true ↔ ¬ a.Clashes c := by
  obtain ⟨hskeleton, hnumbers⟩ := (agrees_iff a b).mp hab
  obtain ⟨hskeleton', hnumbers'⟩ := (agrees_iff b c).mp hbc
  rw [agrees_iff, numbersAgree_trans_iff hnumbers hnumbers']
  exact and_iff_right (hskeleton.trans hskeleton')

theorem same_trans_iff {a b c : Value} (hab : same a b = true) (hbc : same b c = true) :
    same a c = true ↔ ¬ (a.kind = .number ∧ a.Clashes c) := by
  by_cases hkind : a.kind = .number
  · obtain ⟨l, m, rfl, rfl, hlm⟩ := exists_numbers_of_same hab hkind
    obtain ⟨_, n, hm, rfl, hmn⟩ := exists_numbers_of_same hbc rfl
    cases hm
    rw [clashes_number_iff]
    exact (numericEq_trans_iff hlm hmn).trans (not_congr (and_iff_right rfl).symm)
  · refine iff_of_true ?_ fun hclash => hkind hclash.1
    have hkind' : b.kind ≠ .number := (kind_eq_of_same hab).symm ▸ hkind
    rw [same_iff_handle hkind] at hab ⊢
    rw [same_iff_handle hkind'] at hbc
    exact hab.trans hbc

/-- Numeric agreement and strict sameness of the first value with the second and of this with the third carry
over to the first and the third, unless there are two different integers rounded alike at one place. -/
structure TransitiveUpToRounding (a b c : Value) : Prop where
  agrees : agrees a b = true → agrees b c = true → (agrees a c = true ↔ ¬ a.Clashes c)
  same : same a b = true → same b c = true → (same a c = true ↔ ¬ (a.kind = .number ∧ a.Clashes c))
  /-- No such integers are both within `2 ^ 53`. -/
  exact : a.Exact → c.Exact → ¬ a.Clashes c

theorem comparisons_transitive_up_to_rounding (a b c : Value) : TransitiveUpToRounding a b c where
  agrees := agrees_trans_iff
  same := same_trans_iff
  exact := not_clashes_of_exact

/-- An integer, a float and the integer again, and beside them the largest integers that are all floats. -/
theorem comparisons_transitive_up_to_rounding_nested :
    let a := list 0 [int 1, record 1 [("n", int 9007199254740992)]]
    let b := list 2 [float ⟨0x3ff0000000000000⟩, record 3 [("n", float ⟨0x4340000000000000⟩)]]
    a.Exact ∧ agrees a b = true ∧ agrees b a = true ∧ agrees a a = true := by
  intro a b
  have ha : a.Exact := by
    simp [a, Exact, numbers, numbersOfItems, numbersOfFields, int]
  have hab : agrees a b = true := by decide +kernel
  have hba : agrees b a = true := by decide +kernel
  have htransitive := comparisons_transitive_up_to_rounding a b a
  exact ⟨ha, hab, hba, (htransitive.agrees hab hba).mpr (htransitive.exact ha ha)⟩

/-- Beyond `2 ^ 53` a float agrees with two integers, and is the same as both, that differ. -/
theorem comparisons_not_transitive_beyond_exact :
    let a := int 9007199254740993
    let b := float ⟨0x4340000000000000⟩
    let c := int 9007199254740992
    a.NaNFree ∧ b.NaNFree ∧ c.NaNFree ∧
      agrees a b = true ∧ agrees b c = true ∧ agrees a c = false ∧
      same a b = true ∧ same b c = true ∧ same a c = false := by
  intro a b c
  refine ⟨?_, ?_, ?_, ?_⟩
  · simp [NaNFree, a, numbers, int, Number.isNaN]
  · simp [NaNFree, b, numbers, float]
    decide +kernel
  · simp [NaNFree, c, numbers, int, Number.isNaN]
  · decide +kernel

end RuntimeContracts.Value
