import Mathlib.Data.List.DropRight
import RuntimeContracts.Text.WhiteSpace

/-!
What is left of a text without the blanks at its ends. Which code points count as blanks is read off the
table of ranges, whose order lets the search stop early; a word without blanks is what is left of a text
exactly if the text is the word between two stretches of blanks.
-/
namespace RuntimeContracts.Text

def CodeRanges.Ordered (ranges : CodeRanges) : Prop :=
  ranges.Pairwise fun r r' => r.2 < r'.1

instance (ranges : CodeRanges) : Decidable ranges.Ordered :=
  inferInstanceAs (Decidable (List.Pairwise _ ranges))

/-- The search does not miss a range by stopping early. -/
theorem CodeRanges.contains_iff {ranges : CodeRanges} (hordered : ranges.Ordered) (c : Nat) :
    ranges.contains c ↔ ∃ r ∈ ranges, r.1 ≤ c ∧ c ≤ r.2 := by
  induction ranges with
  | nil => simp [contains]
  | cons r rest ih =>
    obtain ⟨hlater, hrest⟩ := List.pairwise_cons.mp hordered
    obtain ⟨first, last⟩ := r
    by_cases hlast : c ≤ last
    · have hnone : ¬∃ r ∈ rest, r.1 ≤ c ∧ c ≤ r.2 := by
        rintro ⟨r, hr, hfirst, -⟩
        exact absurd (Nat.lt_of_lt_of_le (hlater r hr) hfirst) (Nat.not_lt.mpr hlast)
      have hstop : contains ((first, last) :: rest) c = decide (first ≤ c) := if_pos hlast
      rw [hstop, decide_eq_true_iff, List.exists_mem_cons_iff, or_iff_left hnone]
      exact (and_iff_left hlast).symm
    · have hskip : contains ((first, last) :: rest) c = contains rest c := if_neg hlast
      rw [hskip, ih hrest, List.exists_mem_cons_iff, or_iff_right fun h => hlast h.2]

namespace WhiteSpace

/-- Only the points in the ranges are blanks. -/
theorem isBlank_iff (c : Char) : isBlank c ↔ ∃ r ∈ ranges, r.1 ≤ c.toNat ∧ c.toNat ≤ r.2 :=
  CodeRanges.contains_iff (by decide) c.toNat

theorem trimEnd_eq_rdropWhile (cs : List Char) : trimEnd cs = cs.rdropWhile isBlank := rfl

/-- Only blanks are taken off. -/
theorem exists_blanks_trim (cs : List Char) : ∃ before after, cs = before ++ trim cs ++ after ∧
    (∀ c ∈ before, isBlank c) ∧ ∀ c ∈ after, isBlank c := by
  refine ⟨cs.takeWhile isBlank, (cs.dropWhile isBlank).rtakeWhile isBlank, ?_,
    fun c => List.mem_takeWhile_imp, fun c => List.mem_rtakeWhile_imp⟩
  rw [trim, trimEnd_eq_rdropWhile, List.append_assoc, List.rdropWhile_append_rtakeWhile,
    List.takeWhile_append_dropWhile]

/-- A word without blanks is left whole. -/
theorem trim_of_word {word : List Char} (hword : ∀ c ∈ word, ¬isBlank c) : trim word = word := by
  have hbegin : word.dropWhile isBlank = word :=
    List.dropWhile_eq_self_iff.mpr fun h => hword _ (List.getElem_mem h)
  rw [trim, hbegin]
  exact List.rdropWhile_eq_self_iff.mpr fun h => hword _ (List.getLast_mem h)

/-- Blanks at the ends make no difference to what is left. -/
theorem trim_of_blanks {before after : List Char} (word : List Char) (hbefore : ∀ c ∈ before, isBlank c)
    (hafter : ∀ c ∈ after, isBlank c) : trim (before ++ word ++ after) = trim word := by
  rw [List.append_assoc, trim, List.dropWhile_append_of_pos hbefore, List.dropWhile_append]
  split
  next hempty =>
    have hword : word.dropWhile isBlank = [] := List.isEmpty_iff.mp hempty
    rw [trim, hword, List.dropWhile_eq_nil_iff.mpr hafter]
  next =>
    rw [trim, trimEnd, List.reverse_append,
      List.dropWhile_append_of_pos fun c hc => hafter c (List.mem_reverse.mp hc), trimEnd]

theorem trim_eq_iff {word : List Char} (hword : ∀ c ∈ word, ¬isBlank c) (cs : List Char) :
    trim cs = word ↔ ∃ before after, cs = before ++ word ++ after ∧
      (∀ c ∈ before, isBlank c) ∧ ∀ c ∈ after, isBlank c := by
  constructor
  · rintro rfl
    exact exists_blanks_trim cs
  · rintro ⟨before, after, rfl, hbefore, hafter⟩
    rw [trim_of_blanks word hbefore hafter, trim_of_word hword]

end WhiteSpace

end RuntimeContracts.Text
