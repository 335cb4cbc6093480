import Mathlib.Data.String.Basic
import Mathlib.Tactic.SplitIfs

/-!
Texts in order. Texts are compared by their code points. Their bytes in UTF-8 come in the same order,
since a longer encoding starts with a higher byte and one of the same length has the digits of the code
point from the highest to the lowest.
-/
namespace RuntimeContracts.Text

def utf8 (s : String) : List UInt8 := s.toUTF8.data.toList

theorem utf8_eq (s : String) : utf8 s = s.toList.flatMap String.utf8EncodeChar := by
  rw [utf8, String.toUTF8_eq_toByteArray, ← String.utf8Encode_toList, List.utf8Encode,
    List.data_toByteArray]

section Digits

def digits (lead : Nat) : Nat → Nat → List UInt8
  | 0, v => [UInt8.ofNat (v + lead)]
  | more + 1, v => digits lead more (v / 64) ++ [UInt8.ofNat (v % 64 + 0x80)]

theorem ofNat_lt_ofNat {m n : Nat} (h : m < n) (hn : n < 256) : UInt8.ofNat m < UInt8.ofNat n := by
  rw [UInt8.lt_iff_toNat_lt, UInt8.toNat_ofNat', UInt8.toNat_ofNat']
  omega

theorem digits_eq_cons (lead more v : Nat) :
    ∃ rest, digits lead more v = UInt8.ofNat (v / 64 ^ more + lead) :: rest := by
  induction more generalizing v with
  | zero =>
    rw [Nat.pow_zero, Nat.div_one]
    exact ⟨[], rfl⟩
  | succ more ih =>
    obtain ⟨rest, hrest⟩ := ih (v / 64)
    refine ⟨rest ++ [UInt8.ofNat (v % 64 + 0x80)], ?_⟩
    rw [digits, hrest, Nat.div_div_eq_div_mul, ← Nat.pow_succ']
    rfl

/-- As many digits of a higher number are higher, whatever follows. -/
theorem digits_lt_of_lt (lead : Nat) {more m n : Nat} (h : m < n) (hn : n / 64 ^ more + lead < 256)
    (s t : List UInt8) : digits lead more m ++ s < digits lead more n ++ t := by
  induction more generalizing m n s t with
  | zero =>
    rw [Nat.pow_zero, Nat.div_one] at hn
    exact List.cons_lt_cons_iff.mpr (Or.inl (ofNat_lt_ofNat (by omega) hn))
  | succ more ih =>
    simp only [digits, List.append_assoc]
    by_cases hhigh : m / 64 = n / 64
    · rw [hhigh]
      apply List.append_left_lt
      exact List.cons_lt_cons_iff.mpr (Or.inl (ofNat_lt_ofNat (by omega) (by omega)))
    · rw [Nat.pow_succ', ← Nat.div_div_eq_div_mul] at hn
      exact ih (by omega) hn _ _

/-- Digits with a higher first byte are higher, however many they are. -/
theorem digits_lt_of_lead_lt {lead more m lead' more' n : Nat}
    (h : m / 64 ^ more + lead < n / 64 ^ more' + lead') (hn : n / 64 ^ more' + lead' < 256)
    (s t : List UInt8) : digits lead more m ++ s < digits lead' more' n ++ t := by
  obtain ⟨rest, hrest⟩ := digits_eq_cons lead more m
  obtain ⟨rest', hrest'⟩ := digits_eq_cons lead' more' n
  rw [hrest, hrest']
  exact List.cons_lt_cons_iff.mpr (Or.inl (ofNat_lt_ofNat h hn))

end Digits

def encode (v : Nat) : List UInt8 :=
  if v ≤ 0x7F then digits 0 0 v
  else if v ≤ 0x7FF then digits 0xC0 1 v
  else if v ≤ 0xFFFF then digits 0xE0 2 v
  else digits 0xF0 3 v

theorem toNat_lt (c : Char) : c.val.toNat < 0x110000 := by
  have hvalid := c.valid
  simp only [UInt32.isValidChar, Nat.isValidChar] at hvalid
  omega

theorem utf8EncodeChar_eq (c : Char) : String.utf8EncodeChar c = encode c.val.toNat := by
  have hc := toNat_lt c
  unfold String.utf8EncodeChar encode
  dsimp only
  split_ifs with h₁ h₂ h₃
  · rfl
  · rw [Nat.mod_eq_of_lt (by omega)]
    rfl
  · rw [Nat.mod_eq_of_lt (by omega)]
    simp [digits, Nat.div_div_eq_div_mul]
  · rw [Nat.mod_eq_of_lt (by omega)]
    simp [digits, Nat.div_div_eq_div_mul]

section Widths

def width (v : Nat) : Nat :=
  if v ≤ 0x7F then 0
  else if v ≤ 0x7FF then 1
  else if v ≤ 0xFFFF then 2
  else 3

def mark : Nat → Nat
  | 0 => 0
  | 1 => 0xC0
  | 2 => 0xE0
  | 3 => 0xF0
  | _ => 0xF8

theorem encode_eq (v : Nat) : encode v = digits (mark (width v)) (width v) v := by
  unfold encode width
  split_ifs <;> rfl

theorem width_le_three (v : Nat) : width v ≤ 3 := by
  unfold width
  split_ifs <;> omega

theorem width_mono {m n : Nat} (h : m ≤ n) : width m ≤ width n := by
  unfold width
  split_ifs <;> omega

theorem mark_succ_le_mark {k l : Nat} (h : k < l) (hl : l ≤ 3) : mark (k + 1) ≤ mark l := by
  have hall : ∀ l ≤ 3, ∀ k < l, mark (k + 1) ≤ mark l := by decide
  exact hall l hl k h

theorem mark_le (k : Nat) : mark k ≤ 0xF8 := by
  unfold mark
  split <;> decide

/-- The first byte says how many bytes follow. -/
theorem lead_lt_mark {v : Nat} (hv : v < 0x110000) :
    v / 64 ^ width v + mark (width v) < mark (width v + 1) := by
  unfold width
  split_ifs <;> simp only [mark] <;> omega

end Widths

theorem encode_lt_of_lt {m n : Nat} (h : m < n) (hn : n < 0x110000) (s t : List UInt8) :
    encode m ++ s < encode n ++ t := by
  have hlead := lead_lt_mark hn
  have hle := mark_le (width n + 1)
  rw [encode_eq, encode_eq]
  by_cases hwidth : width m = width n
  · rw [hwidth]
    exact digits_lt_of_lt _ h (by omega) s t
  · have hlt : width m < width n := Nat.lt_of_le_of_ne (width_mono (Nat.le_of_lt h)) hwidth
    have hfirst : m / 64 ^ width m + mark (width m) < n / 64 ^ width n + mark (width n) := calc
      m / 64 ^ width m + mark (width m) < mark (width m + 1) := lead_lt_mark (Nat.lt_trans h hn)
      _ ≤ mark (width n) := mark_succ_le_mark hlt (width_le_three n)
      _ ≤ n / 64 ^ width n + mark (width n) := Nat.le_add_left _ _
    exact digits_lt_of_lead_lt hfirst (by omega) s t

theorem flatMap_lt_of_lt {cs ds : List Char} (h : cs < ds) :
    cs.flatMap String.utf8EncodeChar < ds.flatMap String.utf8EncodeChar := by
  induction cs generalizing ds with
  | nil =>
    cases ds with
    | nil => exact absurd h (List.not_lt_nil [])
    | cons d ds =>
      obtain ⟨b, bs, hd⟩ := List.exists_cons_of_ne_nil (String.utf8EncodeChar_ne_nil (c := d))
      rw [List.flatMap_cons, hd]
      exact List.nil_lt_cons b _
  | cons c cs ih =>
    cases ds with
    | nil => exact absurd h (List.not_lt_nil _)
    | cons d ds =>
      rw [List.flatMap_cons, List.flatMap_cons]
      rcases List.cons_lt_cons_iff.mp h with hcd | ⟨rfl, hrest⟩
      · rw [utf8EncodeChar_eq, utf8EncodeChar_eq]
        exact encode_lt_of_lt (UInt32.lt_iff_toNat_lt.mp hcd) (toNat_lt d) _ _
      · exact List.append_left_lt (ih hrest)

/-- The bytes of a higher text are higher. -/
theorem utf8_lt_of_lt {s t : String} (h : s < t) : utf8 s < utf8 t := by
  rw [utf8_eq, utf8_eq]
  exact flatMap_lt_of_lt (String.lt_iff_toList_lt.mp h)

end RuntimeContracts.Text
