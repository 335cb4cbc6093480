import RuntimeContracts.Proofs.Number.Agreement
import RuntimeContracts.Value.Equality

/-!
Strict sameness. Numbers are the same if they are numerically equal, and all other values if they have one
handle: an allocation, the body of a function, or a content that is allocated nowhere.
-/
namespace RuntimeContracts.Value

def handle : Value → Value
  | list id _ => list id []
  | record id _ => record id []
  | inst c id _ => inst (.root c.id "") id []
  | function f => function ⟨"", [], f.body⟩
  | v => v

theorem kind_eq_of_same {a b : Value} (h : same a b = true) : a.kind = b.kind := by
  cases a <;> cases b <;> simp [same, kind] at h ⊢

/-- Numbers are the same as numbers only. -/
theorem exists_numbers_of_same {a b : Value} (h : same a b = true) (hkind : a.kind = .number) :
    ∃ m n, a = number m ∧ b = number n ∧ m.numericEq n = true := by
  have hkind' : b.kind = .number := (kind_eq_of_same h).symm.trans hkind
  cases a with
  | number m =>
    cases b with
    | number n => exact ⟨m, n, rfl, rfl, h⟩
    | _ => cases hkind'
  | _ => cases hkind

/-- Apart from numbers, values are the same if their handles are. -/
theorem same_iff_handle {a b : Value} (h : a.kind ≠ .number) : same a b = true ↔ a.handle = b.handle := by
  cases a with
  | number n => exact absurd rfl h
  | _ => cases b <;> simp [same, handle, BEq.beq]

theorem same_symm {a b : Value} (h : same a b = true) : same b a = true := by
  by_cases hkind : a.kind = .number
  · obtain ⟨m, n, rfl, rfl, hmn⟩ := exists_numbers_of_same h hkind
    exact Number.numericEq_symm hmn
  · rw [same_iff_handle (kind_eq_of_same h ▸ hkind)]
    exact ((same_iff_handle hkind).mp h).symm

end RuntimeContracts.Value
