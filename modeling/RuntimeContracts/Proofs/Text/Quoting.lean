import RuntimeContracts.Proofs.Text.Numerals
import RuntimeContracts.Text.Quoted
import Mathlib.Tactic.SplitIfs

/-!
Quoted text can be read back. A backslash begins an escape, by a letter or by a number, a double quote ends the
text, and any other character stands for itself; so one character is told from the next, and the text from what
follows it.
-/
namespace RuntimeContracts.Text.Quoted

def lettered : List (Char × Char) :=
  [('\x00', '0'), ('\t', 't'), ('\r', 'r'), ('\n', 'n'), ('"', '"'), ('\\', '\\')]

inductive Written : Char → List Char → Prop
  | byLetter {c letter : Char} (h : (c, letter) ∈ lettered) : Written c ['\\', letter]
  | byNumber {c : Char} :
      Written c ('\\' :: 'u' :: '\x7b' :: (Nat.toDigits 16 c.toNat ++ ['\x7d']))
  | asIs {c : Char} (hquote : c ≠ '"') (hbackslash : c ≠ '\\') : Written c [c]

theorem written_escape (c : Char) : Written c (escape c) := by
  unfold escape
  split_ifs with hnul htab hreturn hnewline hquote hbackslash
  · exact .byLetter (by subst hnul; decide)
  · exact .byLetter (by subst htab; decide)
  · exact .byLetter (by subst hreturn; decide)
  · exact .byLetter (by subst hnewline; decide)
  · exact .byLetter (by subst hquote; decide)
  · exact .byLetter (by subst hbackslash; decide)
  · exact .byNumber
  · exact .asIs hquote hbackslash

/-- A letter stands for one character, and the one that announces a number for none. -/
theorem lettered_inj : ∀ p ∈ lettered, ∀ q ∈ lettered, p.2 = q.2 → p.1 = q.1 := by decide

theorem lettered_ne_number : ∀ p ∈ lettered, p.2 ≠ 'u' := by decide

namespace Written

variable {c d : Char} {text text' rest rest' : List Char}

/-- What is written for a character does not begin with the quote that ends the text. -/
theorem head?_ne (h : Written c text) : (text ++ rest).head? ≠ some '"' := by
  cases h with
  | byLetter _ => simp
  | byNumber => simp
  | asIs hquote _ => simpa using hquote

theorem append_inj (hc : Written c text) (hd : Written d text') (h : text ++ rest = text' ++ rest') :
    c = d ∧ rest = rest' := by
  cases hc with
  | byLetter hletter =>
    cases hd with
    | byLetter hletter' =>
      obtain ⟨hsame, hrest⟩ := List.cons.inj (List.cons.inj h).2
      exact ⟨lettered_inj _ hletter _ hletter' hsame, hrest⟩
    | byNumber => exact absurd (List.cons.inj (List.cons.inj h).2).1 (lettered_ne_number _ hletter)
    | asIs _ hbackslash => exact absurd (List.cons.inj h).1.symm hbackslash
  | byNumber =>
    cases hd with
    | byLetter hletter =>
      exact absurd (List.cons.inj (List.cons.inj h).2).1.symm (lettered_ne_number _ hletter)
    | byNumber =>
      have hclosed (more : List Char) : Stops Char.isAlphanum ('\x7d' :: more) :=
        stops_cons (by decide) more
      simp only [List.cons_append, List.append_assoc, List.nil_append, List.cons.injEq, true_and] at h
      obtain ⟨hnumber, hrest⟩ := toDigits_append_inj (by decide) (by decide) (hclosed _) (hclosed _) h
      exact ⟨Char.toNat_inj.mp hnumber, (List.cons.inj hrest).2⟩
    | asIs _ hbackslash => exact absurd (List.cons.inj h).1.symm hbackslash
  | asIs _ hbackslash =>
    cases hd with
    | byLetter _ => exact absurd (List.cons.inj h).1 hbackslash
    | byNumber => exact absurd (List.cons.inj h).1 hbackslash
    | asIs _ _ => exact ⟨(List.cons.inj h).1, (List.cons.inj h).2⟩

end Written

/-- Escaped characters can be read back up to the quote that ends them. -/
theorem escapeAll_inj {cs ds rest rest' : List Char}
    (h : escapeAll cs ('"' :: rest) = escapeAll ds ('"' :: rest')) : cs = ds ∧ rest = rest' := by
  induction cs generalizing ds with
  | nil =>
    cases ds with
    | nil => exact ⟨rfl, (List.cons.inj h).2⟩
    | cons d ds => exact absurd (congrArg List.head? h).symm (written_escape d).head?_ne
  | cons c cs ih =>
    cases ds with
    | nil => exact absurd (congrArg List.head? h) (written_escape c).head?_ne
    | cons d ds =>
      obtain ⟨rfl, hmore⟩ := (written_escape c).append_inj (written_escape d) h
      obtain ⟨rfl, hrest⟩ := ih hmore
      exact ⟨rfl, hrest⟩

/-- A quoted text can be read back, whatever follows it. -/
theorem quote_inj {s t : String} {rest rest' : List Char} (h : quote s rest = quote t rest') :
    s = t ∧ rest = rest' := by
  obtain ⟨hchars, hrest⟩ := escapeAll_inj (List.cons.inj h).2
  exact ⟨String.toList_inj.mp hchars, hrest⟩

end RuntimeContracts.Text.Quoted
