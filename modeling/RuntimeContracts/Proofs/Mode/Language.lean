import Mathlib.Data.List.Forall2
import RuntimeContracts.Proofs.Contract.Assembly
import RuntimeContracts.Proofs.Text.Trimming

/-!
Which texts name a mode, and what becomes of a setting. The language is described without the parser: blanks,
the letters of the name in either case, blanks. The parser accepts this language and hands back every other
text as it is; a setting is read as a mode other than the strictest only if it spells that mode.
-/
namespace RuntimeContracts

namespace Text

/-- The same letter of the alphabet, whatever the cases, or else the very same character. -/
def SameLetter (c d : Char) : Prop :=
  c = d ∨ ∃ n < 26, (c.toNat = 'A'.toNat + n ∧ d.toNat = 'a'.toNat + n) ∨
    (c.toNat = 'a'.toNat + n ∧ d.toNat = 'A'.toNat + n)

theorem toNat_toLower (c : Char) : c.toLower.toNat =
    if 'A'.toNat ≤ c.toNat ∧ c.toNat ≤ 'Z'.toNat then c.toNat + 32 else c.toNat := by
  unfold Char.toLower
  split
  next hupper =>
    have hle : c.toNat ≤ 90 := hupper.2
    have hsum : (c.val + ('a'.val - 'A'.val)).toNat = c.toNat + 32 := by
      rw [UInt32.toNat_add]
      exact Nat.mod_eq_of_lt (by change c.toNat + 32 < _; omega)
    exact hsum.trans (if_pos hupper).symm
  next hother => exact (if_neg hother).symm

/-- Two characters with one lower case are the same letter. -/
theorem toLower_eq_iff (c d : Char) : c.toLower = d.toLower ↔ SameLetter c d := by
  have hA : 'A'.toNat = 65 := rfl
  have hZ : 'Z'.toNat = 90 := rfl
  have ha : 'a'.toNat = 97 := rfl
  rw [← Char.toNat_inj, toNat_toLower, toNat_toLower, SameLetter, ← Char.toNat_inj, hA, hZ, ha]
  constructor
  · intro h
    by_cases hc : 65 ≤ c.toNat ∧ c.toNat ≤ 90 <;> by_cases hd : 65 ≤ d.toNat ∧ d.toNat ≤ 90
    · rw [if_pos hc, if_pos hd] at h
      exact .inl (Nat.add_right_cancel h)
    · rw [if_pos hc, if_neg hd] at h
      exact .inr ⟨c.toNat - 65, by omega, .inl ⟨by omega, by omega⟩⟩
    · rw [if_neg hc, if_pos hd] at h
      exact .inr ⟨d.toNat - 65, by omega, .inr ⟨by omega, by omega⟩⟩
    · rw [if_neg hc, if_neg hd] at h
      exact .inl h
  · rintro (h | ⟨n, hn, ⟨hc, hd⟩ | ⟨hc, hd⟩⟩)
    · rw [h]
    · rw [if_pos ⟨by omega, by omega⟩, if_neg (by omega), hc, hd]
      omega
    · rw [if_neg (by omega), if_pos ⟨by omega, by omega⟩, hc, hd]
      omega

end Text

namespace Mode

open Text Text.WhiteSpace

/-- The text is the name of the mode in letters of any case, with blanks at the ends. -/
def Spells (s : String) (m : Mode) : Prop :=
  ∃ before word after, s.toList = before ++ word ++ after ∧ (∀ c ∈ before, isBlank c) ∧
    (∀ c ∈ after, isBlank c) ∧ List.Forall₂ SameLetter word m.name.toList

/-- Each mode has one name. -/
theorem ofName?_eq_some_iff (s : String) (m : Mode) : ofName? s = some m ↔ s = m.name := by
  constructor
  · unfold ofName?
    intro h
    split at h
    next hs => cases h; exact hs
    split at h
    next hs => cases h; exact hs
    split at h
    next hs => cases h; exact hs
    next => cases h
  · rintro rfl
    cases m <;> decide

/-- In letters of any case means that the lower case is the name, which is in lower case itself. -/
theorem map_toLower_eq_name_iff (word : List Char) (m : Mode) :
    word.map Char.toLower = m.name.toList ↔ List.Forall₂ SameLetter word m.name.toList := by
  have hlower : m.name.toList = m.name.toList.map Char.toLower := by cases m <;> decide
  have hsame : SameLetter = fun c d => c.toLower = d.toLower :=
    funext fun c => funext fun d => propext (toLower_eq_iff c d).symm
  conv_lhs => rw [hlower]
  rw [hsame, ← List.forall₂_eq_eq_eq, List.forall₂_map_left_iff, List.forall₂_map_right_iff]

/-- No letter of a name is a blank, in either case. -/
theorem not_isBlank_of_spelled {word : List Char} {m : Mode}
    (hword : List.Forall₂ SameLetter word m.name.toList) : ∀ c ∈ word, ¬isBlank c := by
  intro c hc hblank
  obtain ⟨r, hr, hfirst, hlast⟩ := (isBlank_iff c).mp hblank
  have houtside : ∀ r ∈ ranges, r.2 < 65 ∨ 122 < r.1 := by decide
  have hletters : m.name.toList.all fun d => decide (97 ≤ d.toNat ∧ d.toNat ≤ 122) := by
    cases m <;> decide
  have hlower : c.toLower ∈ m.name.toList := by
    rw [← (map_toLower_eq_name_iff word m).mpr hword]
    exact List.mem_map_of_mem hc
  have hletter := of_decide_eq_true (List.all_eq_true.mp hletters _ hlower)
  rw [toNat_toLower, show 'A'.toNat = 65 from rfl, show 'Z'.toNat = 90 from rfl] at hletter
  have hbetween : 65 ≤ c.toNat ∧ c.toNat ≤ 122 := by
    split at hletter <;> omega
  have := houtside r hr
  omega

/-- The texts that are read as a mode are those that spell its name. -/
theorem parse_eq_ok_iff (s : String) (m : Mode) : parse s = .ok m ↔ Spells s m := by
  have hparse : parse s = .ok m ↔
      ofName? (String.ofList ((trim s.toList).map Char.toLower)) = some m := by
    unfold parse
    split
    next m' hname => rw [hname, Except.ok.injEq, Option.some.injEq]
    next hname => rw [hname]; simp only [reduceCtorEq]
  rw [hparse, ofName?_eq_some_iff, ← String.toList_inj, String.toList_ofList, map_toLower_eq_name_iff]
  constructor
  · intro hword
    obtain ⟨before, after, hs, hbefore, hafter⟩ := exists_blanks_trim s.toList
    exact ⟨before, _, after, hs, hbefore, hafter, hword⟩
  · rintro ⟨before, word, after, hs, hbefore, hafter, hword⟩
    rw [(trim_eq_iff (not_isBlank_of_spelled hword) s.toList).mpr ⟨before, after, hs, hbefore, hafter⟩]
    exact hword

/-- Every other text is handed back as it is. -/
theorem parse_eq_error_iff (s : String) (e : UnknownMode) :
    parse s = .error e ↔ e = ⟨s⟩ ∧ ∀ m, ¬Spells s m := by
  have hcases : (∃ m, parse s = .ok m) ∨ parse s = .error ⟨s⟩ := by
    unfold parse
    split
    next m _ => exact .inl ⟨m, rfl⟩
    next => exact .inr rfl
  rcases hcases with ⟨m, hok⟩ | herror
  · constructor
    · intro h
      exact nomatch hok.symm.trans h
    · rintro ⟨-, hnot⟩
      exact absurd ((parse_eq_ok_iff s m).mp hok) (hnot m)
  · constructor
    · intro h
      refine ⟨(Except.error.inj (herror.symm.trans h)).symm, fun m hspells => ?_⟩
      exact nomatch herror.symm.trans ((parse_eq_ok_iff s m).mpr hspells)
    · rintro ⟨rfl, -⟩
      exact herror

theorem ofSetting_of_spells {s : String} {m : Mode} (h : Spells s m) : ofSetting (some s) = (m, none) := by
  rw [ofSetting, (parse_eq_ok_iff s m).mpr h]

example : ofSetting (some "\u2003oFf\r\n") = (.off, none) := by decide +kernel

theorem ofSetting_of_not_spells {s : String} (h : ∀ m, ¬Spells s m) :
    ofSetting (some s) = (.enforce, some ⟨s⟩) := by
  rw [ofSetting, (parse_eq_error_iff s ⟨s⟩).mpr ⟨rfl, h⟩]

example : ofSetting (some "o ff") = (.enforce, some ⟨"o ff"⟩) := by decide +kernel

def textOf? (content : Option ByteArray) : Option String := content.bind String.fromUTF8?

theorem textOf?_eq_some_iff (content : Option ByteArray) (s : String) :
    textOf? content = some s ↔ content = some s.toUTF8 := by
  have hdecode : ∀ bytes : ByteArray, String.fromUTF8? bytes = some s ↔ bytes = s.toUTF8 := by
    intro bytes
    unfold String.fromUTF8?
    split
    next hvalid => exact Option.some_inj.trans ⟨fun h => h ▸ rfl, fun h => by subst h; rfl⟩
    next hinvalid => exact ⟨nofun, fun h => absurd (h ▸ s.isValidUTF8) hinvalid⟩
  rw [textOf?, Option.bind_eq_some_iff]
  simp only [hdecode, exists_eq_right]

structure SafelyRead (content : Option ByteArray) (m : Mode) (unknown : Option UnknownMode) : Prop where
  unset : content = none → m = .enforce ∧ unknown = none
  undecodable : (∀ s : String, content ≠ some s.toUTF8) → m = .enforce ∧ unknown = none
  spelled : ∀ s m', content = some s.toUTF8 → Spells s m' → m = m' ∧ unknown = none
  other : ∀ s, content = some s.toUTF8 → (∀ m', ¬Spells s m') → m = .enforce ∧ unknown = some ⟨s⟩
  /-- Checks are weakened only by a text that says so. -/
  weakened : m ≠ .enforce → ∃ s, content = some s.toUTF8 ∧ Spells s m

theorem safelyRead_ofSetting (content : Option ByteArray) :
    SafelyRead content (ofSetting (textOf? content)).1 (ofSetting (textOf? content)).2 where
  unset hunset := by
    rw [hunset]
    exact ⟨rfl, rfl⟩
  undecodable hnot := by
    have htext : textOf? content = none :=
      Option.eq_none_iff_forall_ne_some.mpr fun s hs => hnot s ((textOf?_eq_some_iff content s).mp hs)
    rw [htext]
    exact ⟨rfl, rfl⟩
  spelled s m hs hspells := by
    rw [(textOf?_eq_some_iff content s).mpr hs, ofSetting_of_spells hspells]
    exact ⟨rfl, rfl⟩
  other s hs hnot := by
    rw [(textOf?_eq_some_iff content s).mpr hs, ofSetting_of_not_spells hnot]
    exact ⟨rfl, rfl⟩
  weakened hne := by
    cases htext : textOf? content with
    | none =>
      rw [htext] at hne
      exact absurd rfl hne
    | some s =>
      refine ⟨s, (textOf?_eq_some_iff content s).mp htext, ?_⟩
      by_cases hspells : ∃ m, Spells s m
      · obtain ⟨m, hm⟩ := hspells
        rw [ofSetting_of_spells hm]
        exact hm
      · rw [htext, ofSetting_of_not_spells (not_exists.mp hspells)] at hne
        exact absurd rfl hne

end Mode

/-- The parser accepts exactly its language, and every variable is read safely: whatever it contains, a mode
is read, and only a text that is handed back by the parser is reported. -/
theorem mode_language_exact {σ : Type} (code : Code σ) (call : Machine.Caller σ) (w : World σ) :
    (∀ s m, Mode.parse s = .ok m ↔ Mode.Spells s m) ∧
      (∀ s e, Mode.parse s = .error e ↔ e = ⟨s⟩ ∧ ∀ m, ¬Mode.Spells s m) ∧
      ∀ content : Option ByteArray, ∃ m unknown,
        Machine.runProgram code call (Contract.modeOfSetting (Mode.textOf? content)) w =
          some (m, w.recordUnknown unknown) ∧ Mode.SafelyRead content m unknown :=
  ⟨Mode.parse_eq_ok_iff, Mode.parse_eq_error_iff, fun content =>
    ⟨_, _, Contract.runProgram_modeOfSetting code call _ w, Mode.safelyRead_ofSetting content⟩⟩

end RuntimeContracts
