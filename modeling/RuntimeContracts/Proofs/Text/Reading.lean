import Mathlib.Data.List.TakeDrop

/-!
Reading texts back from the front. A word of some class of characters ends before the first character that is
none of them, and texts that are separated by commas and closed by some other character end there. So both can
be told from what follows them, if no text that is separated begins with the character that closes the row.
-/
namespace RuntimeContracts.Text

/-- The text does not go on with a character of the class. -/
def Stops (isWord : Char → Bool) : List Char → Prop
  | [] => True
  | c :: _ => isWord c = false

theorem stops_cons {isWord : Char → Bool} {c : Char} (h : isWord c = false) (rest : List Char) :
    Stops isWord (c :: rest) := h

theorem takeWhile_of_stops {isWord : Char → Bool} {word rest : List Char} (hword : ∀ c ∈ word, isWord c)
    (hrest : Stops isWord rest) : (word ++ rest).takeWhile isWord = word := by
  rw [List.takeWhile_append_of_pos hword]
  cases rest with
  | nil => exact List.append_nil word
  | cons c rest =>
    rw [List.takeWhile_cons_of_neg (by rw [hrest]; exact Bool.false_ne_true), List.append_nil]

/-- A word is told from the text after it by the characters of its class. -/
theorem word_append_inj {isWord : Char → Bool} {word word' rest rest' : List Char}
    (hword : ∀ c ∈ word, isWord c) (hword' : ∀ c ∈ word', isWord c) (hrest : Stops isWord rest)
    (hrest' : Stops isWord rest') (h : word ++ rest = word' ++ rest') : word = word' ∧ rest = rest' := by
  have hwords : word = word' := by
    rw [← takeWhile_of_stops hword hrest, h, takeWhile_of_stops hword' hrest']
  subst hwords
  exact ⟨rfl, List.append_cancel_left h⟩

section Separated

variable {α : Type} (write : α → List Char → List Char)

def separated : List α → List Char → List Char
  | [], rest => rest
  | a :: as, rest =>
    write a (match as with
      | [] => rest
      | _ :: _ => ',' :: ' ' :: separated as rest)

/-- Other things that are written alike, one by one, are written alike in a row. -/
theorem separated_map {f : α → α} {as : List α} (h : ∀ a ∈ as, ∀ rest, write (f a) rest = write a rest)
    (rest : List Char) : separated write (as.map f) rest = separated write as rest := by
  induction as with
  | nil => rfl
  | cons a as ih =>
    obtain ⟨ha, has⟩ := List.forall_mem_cons.mp h
    cases as with
    | nil => exact ha rest
    | cons b bs =>
      change write (f a) (',' :: ' ' :: separated write ((b :: bs).map f) rest) =
        write a (',' :: ' ' :: separated write (b :: bs) rest)
      rw [ih has, ha]

/-- Wherever the text of the thing stands in front of a text that stops, it is the text of nothing else that is
allowed there, and it ends in one place. -/
def ReadsBack (isWord : Char → Bool) (allowed : α → Prop) (a : α) : Prop :=
  ∀ b, allowed b → ∀ rest rest', Stops isWord rest → Stops isWord rest' →
    write a rest = write b rest' → a = b ∧ rest = rest'

/-- Separated texts that are closed can be read back if each of them can. -/
theorem separated_inj {isWord : Char → Bool} {allowed : α → Prop} {close : Char}
    (hclose : isWord close = false) (hcomma : isWord ',' = false) (hne : close ≠ ',')
    (hbegin : ∀ a, allowed a → ∀ rest, (write a rest).head? ≠ some close) {as bs : List α}
    (has : ∀ a ∈ as, allowed a) (hbs : ∀ b ∈ bs, allowed b)
    (hread : ∀ a ∈ as, ReadsBack write isWord allowed a) {rest rest' : List Char}
    (h : separated write as (close :: rest) = separated write bs (close :: rest')) :
    as = bs ∧ rest = rest' := by
  have hclosed (text : List Char) : Stops isWord (close :: text) := stops_cons hclose text
  have hparted (text : List Char) : Stops isWord (',' :: text) := stops_cons hcomma text
  induction as generalizing bs with
  | nil =>
    cases bs with
    | nil => exact ⟨rfl, (List.cons.inj h).2⟩
    | cons b bs => exact absurd (congrArg List.head? h).symm (hbegin b (hbs b (List.mem_cons_self ..)) _)
  | cons a as ih =>
    obtain ⟨ha, hallowed⟩ := List.forall_mem_cons.mp has
    obtain ⟨hreada, hreads⟩ := List.forall_mem_cons.mp hread
    cases bs with
    | nil => exact absurd (congrArg List.head? h) (hbegin a ha _)
    | cons b bs =>
      obtain ⟨hb, hallowed'⟩ := List.forall_mem_cons.mp hbs
      cases as with
      | nil =>
        cases bs with
        | nil =>
          obtain ⟨rfl, hrest⟩ := hreada b hb _ _ (hclosed _) (hclosed _) h
          exact ⟨rfl, (List.cons.inj hrest).2⟩
        | cons d bs =>
          obtain ⟨-, hrest⟩ := hreada b hb _ _ (hclosed _) (hparted _) h
          exact absurd (List.cons.inj hrest).1 hne
      | cons c as =>
        cases bs with
        | nil =>
          obtain ⟨-, hrest⟩ := hreada b hb _ _ (hparted _) (hclosed _) h
          exact absurd (List.cons.inj hrest).1.symm hne
        | cons d bs =>
          obtain ⟨rfl, hrest⟩ := hreada b hb _ _ (hparted _) (hparted _) h
          obtain ⟨hmore, hrest⟩ := ih hallowed hallowed' hreads (List.cons.inj (List.cons.inj hrest).2).2
          exact ⟨congrArg (a :: ·) hmore, hrest⟩

end Separated

end RuntimeContracts.Text
