import RuntimeContracts.Proofs.Ascending.Entries
import RuntimeContracts.Proofs.Signature.Positions
import RuntimeContracts.Proofs.Spec.Interchange

/-!
Equality of signatures. Two signatures that are put together from contributions are equal exactly if at every
position they have as many specs, equal one by one, and for the result as well. A position without specs has no
slot, so nothing is left to differ.
-/
namespace RuntimeContracts.Signature

theorem beqSlots_iff_forall₂ (slots slots' : List (UInt64 × List Spec)) :
    beqSlots slots slots' = true ↔ List.Forall₂ (fun d e => d.1 = e.1 ∧
      List.Forall₂ (fun t u => (t == u) = true) d.2 e.2) slots slots' := by
  induction slots generalizing slots' with
  | nil => cases slots' <;> simp [beqSlots]
  | cons d rest ih => cases slots' <;> simp [beqSlots, ih, Spec.beqMembers_iff_forall₂, and_assoc]

theorem beq_refl (s : Signature) : (s == s) = true := by
  have hmembers (specs : List Spec) : List.Forall₂ (fun t u => (t == u) = true) specs specs :=
    List.forall₂_same.mpr fun t _ => t.beq_refl
  refine Bool.and_eq_true_iff.mpr ⟨(beqSlots_iff_forall₂ _ _).mpr ?_, ?_⟩
  · exact List.forall₂_same.mpr fun e _ => ⟨rfl, hmembers e.2⟩
  · exact (Spec.beqMembers_iff_forall₂ _ _).mpr (hmembers s.returns)

theorem Filled.lookup_ne_some_nil {s : Signature} (h : s.Filled) (position : UInt64) :
    s.params.lookup position ≠ some [] := by
  intro hlookup
  exact h _ ((s.lookup_params_eq_some_iff position []).mp hlookup) rfl

/-- Where no list is empty, a missing list may as well be taken for an empty one. -/
theorem rel_forall₂_iff {α : Type} {r : α → α → Prop} {x y : Option (List α)} (hx : x ≠ some [])
    (hy : y ≠ some []) : Option.Rel (List.Forall₂ r) x y ↔ List.Forall₂ r (x.getD []) (y.getD []) := by
  cases x with
  | none =>
    cases y with
    | none => simp
    | some ys => simpa using hy.symm
  | some xs =>
    cases y with
    | none => simpa using hx
    | some ys => simp

/-- Signatures are equal exactly if their specs are, one by one at every place. -/
theorem Filled.beq_iff {s s' : Signature} (h : s.Filled) (h' : s'.Filled) : (s == s') = true ↔
    (∀ position, List.Forall₂ (fun t u => (t == u) = true) (s.paramSpecs position) (s'.paramSpecs position)) ∧
      List.Forall₂ (fun t u => (t == u) = true) s.returns s'.returns := by
  have hslots := Ascending.forall₂_iff_rel_lookup (r := List.Forall₂ fun t u : Spec => (t == u) = true)
    UInt64.lt_irrefl (fun _ _ _ => UInt64.lt_trans) s.ascends s'.ascends
  change (beqSlots s.params s'.params && Spec.beqMembers s.returns s'.returns) = true ↔ _
  rw [Bool.and_eq_true, beqSlots_iff_forall₂, hslots, Spec.beqMembers_iff_forall₂]
  refine and_congr_left fun _ => forall_congr' fun position => ?_
  exact rel_forall₂_iff (h.lookup_ne_some_nil position) (h'.lookup_ne_some_nil position)

/-- Collected signatures are equal exactly if the contributed specs are, one by one at every place. -/
theorem beq_ofContributions_iff (ks ks' : List Contribution) :
    (ofContributions ks == ofContributions ks') = true ↔
      (∀ position, List.Forall₂ (fun t u => (t == u) = true)
        (ks.filterMap (Contribution.paramSpec? position)) (ks'.filterMap (Contribution.paramSpec? position))) ∧
      List.Forall₂ (fun t u => (t == u) = true)
        (ks.filterMap Contribution.resultSpec?) (ks'.filterMap Contribution.resultSpec?) := by
  rw [(filled_ofContributions ks).beq_iff (filled_ofContributions ks')]
  simp only [(collects_ofContributions _).params, (collects_ofContributions _).results]

end RuntimeContracts.Signature
