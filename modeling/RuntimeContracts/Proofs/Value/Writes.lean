import Mathlib.Logic.Function.Basic
import RuntimeContracts.Proofs.Value.Equality
import RuntimeContracts.Value.Hashing

/-!
The writes of a value can be read back from the front, whatever follows them: the variant says what comes
next, a length how much of it, and a text goes on to a byte that no text contains. So they can be even if
only the plain numbers are kept. Two values have the same writes where they are exactly equal.
-/
namespace RuntimeContracts

def HashWrite.plain : HashWrite → List Nat
  | variant index => [index]
  | byte b => [b.toNat]
  | word w => [w.toNat]
  | length n => [n]
  | bytes text => text.map UInt8.toNat
  | classIdentity id => [id]
  | bodyIdentity id => [id]

namespace Value

def stream (ws : List HashWrite) : List Nat := ws.flatMap HashWrite.plain

theorem stream_nil : stream [] = [] := rfl

theorem stream_cons (w : HashWrite) (ws : List HashWrite) : stream (w :: ws) = w.plain ++ stream ws :=
  List.flatMap_cons

theorem stream_append (ws ws' : List HashWrite) : stream (ws ++ ws') = stream ws ++ stream ws' :=
  List.flatMap_append

section Text

/-- Lead bytes end at `0xF7`, and all others at `0xBF`. -/
theorem ne_of_mem_utf8EncodeChar {c : Char} {b : UInt8} (hb : b ∈ String.utf8EncodeChar c) :
    b.toNat ≠ 0xFF := by
  have hlow : ∀ n < 0xFF, (UInt8.ofNat n).toNat ≠ 0xFF := by
    intro n hn
    rw [UInt8.toNat_ofNat', Nat.mod_eq_of_lt (by omega)]
    omega
  unfold String.utf8EncodeChar at hb
  grind

/-- The byte at the end of a text is none of the text. -/
theorem not_mem_toUTF8 (s : String) : 0xFF ∉ s.toUTF8.data.toList.map UInt8.toNat := by
  obtain ⟨cs, hcs⟩ := s.isValidUTF8
  rw [String.toUTF8_eq_toByteArray, hcs, List.utf8Encode, List.data_toByteArray]
  intro hmem
  obtain ⟨b, hb, hff⟩ := List.mem_map.mp hmem
  obtain ⟨c, -, hbc⟩ := List.mem_flatMap.mp hb
  exact ne_of_mem_utf8EncodeChar hbc hff

theorem map_toUTF8_inj {s t : String} :
    s.toUTF8.data.toList.map UInt8.toNat = t.toUTF8.data.toList.map UInt8.toNat ↔ s = t := by
  rw [List.map_inj_right fun _ _ => UInt8.toNat_inj.mp, Array.toList_inj, ← String.toByteArray_inj,
    ByteArray.ext_iff]
  simp only [String.toUTF8_eq_toByteArray]

/-- A list that goes on to its terminator can be read back from the front. -/
theorem append_terminator_iff {a : Nat} {xs ys s t : List Nat} (hx : a ∉ xs) (hy : a ∉ ys) :
    xs ++ a :: s = ys ++ a :: t ↔ xs = ys ∧ s = t := by
  induction xs generalizing ys with
  | nil =>
    cases ys with
    | nil => simp
    | cons y ys => grind
  | cons x xs ih =>
    cases ys with
    | nil => grind
    | cons y ys =>
      rw [List.mem_cons, not_or] at hx hy
      simp only [List.cons_append, List.cons.injEq, ih hx.2 hy.2, and_assoc]

/-- The end of a text is marked, so that no text begins another one. -/
theorem text_append_iff {s t : String} {ws ws' : List HashWrite} {rest rest' : List Nat} :
    stream (feedText s ws) ++ rest = stream (feedText t ws') ++ rest' ↔
      s = t ∧ stream ws ++ rest = stream ws' ++ rest' := by
  simp only [feedText, stream_cons, HashWrite.plain, List.append_assoc, List.singleton_append]
  exact (append_terminator_iff (not_mem_toUTF8 s) (not_mem_toUTF8 t)).trans
    (and_congr_left' map_toUTF8_inj)

end Text

section Composition

mutual

theorem feed_eq_append : ∀ (v : Value) (rest : List HashWrite), feed v rest = v.writes ++ rest
  | undefined, _ | null, _ | bool _, _ | number (.int _), _ | number (.float _), _ | string _, _
  | function _, _ => rfl
  | list _ items, rest => by
    simp only [writes, feed, feedItems_eq_append items, List.append_nil, List.cons_append]
  | record _ fields, rest => by
    simp only [writes, feed, feedFields_eq_append fields, List.append_nil, List.cons_append]
  | inst _ _ fields, rest => by
    simp only [writes, feed, feedFields_eq_append fields, List.append_nil, List.cons_append]

theorem feedItems_eq_append :
    ∀ (vs : List Value) (rest : List HashWrite), feedItems vs rest = vs.flatMap writes ++ rest
  | [], _ => rfl
  | v :: vs, rest => by
    simp only [feedItems, feed_eq_append v, feedItems_eq_append vs, List.flatMap_cons, List.append_assoc]

theorem feedFields_eq_append : ∀ (es : List (String × Value)) (rest : List HashWrite),
    feedFields es rest = es.flatMap (fun e => feedText e.1 e.2.writes) ++ rest
  | [], _ => rfl
  | (k, v) :: es, rest => by
    simp only [feedFields, feed_eq_append v, feedFields_eq_append es, List.flatMap_cons, feedText,
      List.cons_append, List.append_assoc]

end

def variant : Value → Nat
  | undefined => 0
  | null => 1
  | bool _ => 2
  | number (.int _) => 3
  | number (.float _) => 4
  | string _ => 5
  | list _ _ => 6
  | record _ _ => 7
  | inst _ _ _ => 8
  | function _ => 9

def payload : Value → List HashWrite
  | undefined => []
  | null => []
  | bool b => [.byte (if b then 1 else 0)]
  | number (.int n) => [.word n.toUInt64]
  | number (.float x) => [.word x.bits]
  | string s => feedText s []
  | list _ items => .length items.length :: items.flatMap writes
  | record _ fields => .length fields.length :: fields.flatMap fun e => feedText e.1 e.2.writes
  | inst c _ fields =>
    .classIdentity c.id :: .length fields.length :: fields.flatMap fun e => feedText e.1 e.2.writes
  | function f => [.bodyIdentity f.body]

theorem writes_eq (v : Value) : v.writes = .variant v.variant :: v.payload := by
  cases v with
  | number n => cases n <;> rfl
  | _ =>
    simp only [writes, feed, variant, payload, feedItems_eq_append, feedFields_eq_append, List.append_nil]

end Composition

section Decoding

variable {a b : Value} {s t : List Nat}

theorem variant_content (v : Value) : v.content.variant = v.variant := by
  cases v <;> rfl

theorem variant_eq_of_beq (h : beq a b = true) : a.variant = b.variant := by
  rw [← variant_content a, (beq_iff_content a b).mp h, variant_content b]

theorem toUInt64_toNat_inj {m n : Int64} : m.toUInt64.toNat = n.toUInt64.toNat ↔ m = n :=
  UInt64.toNat_inj.trans (Function.LeftInverse.injective Int64.toInt64_toUInt64).eq_iff

theorem bits_toNat_inj {x y : Binary64} : x.bits.toNat = y.bits.toNat ↔ x = y := by
  rw [UInt64.toNat_inj]
  exact ⟨fun h => congrArg Binary64.mk h, congrArg Binary64.bits⟩

theorem number_payload_append_iff {m n : Number} (h : (number m).variant = (number n).variant) :
    stream (number m).payload ++ s = stream (number n).payload ++ t ↔
      beq (number m) (number n) = true ∧ s = t := by
  cases m with
  | int m =>
    cases n with
    | int n => simp [payload, stream_cons, stream_nil, HashWrite.plain, beq, toUInt64_toNat_inj]
    | float y => cases h
  | float x =>
    cases n with
    | int n => cases h
    | float y => simp [payload, stream_cons, stream_nil, HashWrite.plain, beq, bits_toNat_inj]

theorem kind_eq_of_variant_eq (h : a.variant = b.variant) : a.kind = b.kind := by
  cases a <;> cases b <;> grind [variant, kind, cases Number]

/-- What is to be shown of two values of one variant. -/
theorem append_iff_of_payload (hpayload : a.kind = b.kind → a.variant = b.variant →
    (stream a.payload ++ s = stream b.payload ++ t ↔ beq a b = true ∧ s = t)) :
    stream a.writes ++ s = stream b.writes ++ t ↔ beq a b = true ∧ s = t := by
  have hsame : a.variant = b.variant →
      (stream a.payload ++ s = stream b.payload ++ t ↔ beq a b = true ∧ s = t) :=
    fun hvariant => hpayload (kind_eq_of_variant_eq hvariant) hvariant
  rw [writes_eq a, writes_eq b]
  refine List.cons_eq_cons.trans ⟨fun ⟨hvariant, h⟩ => (hsame hvariant).mp h, fun h => ?_⟩
  have hvariant := variant_eq_of_beq h.1
  exact ⟨hvariant, (hsame hvariant).mpr h⟩

mutual

/-- The writes of a value end where they say. -/
theorem writes_append_iff : ∀ (a b : Value) (s t : List Nat),
    stream a.writes ++ s = stream b.writes ++ t ↔ beq a b = true ∧ s = t
  | undefined, b, s, t => append_iff_of_payload fun hkind h => by
    cases b with
    | undefined => simp [payload, beq]
    | _ => cases hkind
  | null, b, s, t => append_iff_of_payload fun hkind h => by
    cases b with
    | null => simp [payload, beq]
    | _ => cases hkind
  | bool x, b, s, t => append_iff_of_payload fun hkind h => by
    cases b with
    | bool y => cases x <;> cases y <;> simp [payload, stream_cons, HashWrite.plain, beq]
    | _ => cases hkind
  | number m, b, s, t => append_iff_of_payload fun hkind h => by
    cases b with
    | number n => exact number_payload_append_iff h
    | _ => cases hkind
  | string x, b, s, t => append_iff_of_payload fun hkind h => by
    cases b with
    | string y => simp only [payload, text_append_iff, stream_nil, List.nil_append, beq, beq_iff_eq]
    | _ => cases hkind
  | list _ xs, b, s, t => append_iff_of_payload fun hkind h => by
    cases b with
    | list _ ys => exact items_append_iff xs ys s t
    | _ => cases hkind
  | record _ xs, b, s, t => append_iff_of_payload fun hkind h => by
    cases b with
    | record _ ys => exact fields_append_iff xs ys s t
    | _ => cases hkind
  | inst c _ xs, b, s, t => append_iff_of_payload fun hkind h => by
    cases b with
    | inst d _ ys =>
      simp only [beq, Bool.and_eq_true, and_assoc]
      exact List.cons_eq_cons.trans (and_congr beq_iff_eq.symm (fields_append_iff xs ys s t))
    | _ => cases hkind
  | function f, b, s, t => append_iff_of_payload fun hkind h => by
    cases b with
    | function g => simp [payload, stream_cons, HashWrite.plain, beq, BEq.beq]
    | _ => cases hkind

/-- A list of values ends where the length in front of it says. -/
theorem items_append_iff : ∀ (xs ys : List Value) (s t : List Nat),
    xs.length :: stream (xs.flatMap writes) ++ s = ys.length :: stream (ys.flatMap writes) ++ t ↔
      beqItems xs ys = true ∧ s = t
  | [], [], s, t => by simp [stream, beqItems]
  | [], y :: ys, s, t | x :: xs, [], s, t => by simp [beqItems]
  | x :: xs, y :: ys, s, t => by
    have hrest := items_append_iff xs ys s t
    simp only [List.cons_append, List.cons_eq_cons] at hrest
    simp only [List.flatMap_cons, stream_append, List.append_assoc, List.cons_append, List.cons_eq_cons,
      writes_append_iff x y, List.length_cons, Nat.add_right_cancel_iff, beqItems, Bool.and_eq_true,
      and_assoc, ← hrest]
    exact and_left_comm

theorem fields_append_iff : ∀ (xs ys : List (String × Value)) (s t : List Nat),
    xs.length :: stream (xs.flatMap fun e => feedText e.1 e.2.writes) ++ s =
        ys.length :: stream (ys.flatMap fun e => feedText e.1 e.2.writes) ++ t ↔
      beqFields xs ys = true ∧ s = t
  | [], [], s, t => by simp [stream, beqFields]
  | [], y :: ys, s, t | x :: xs, [], s, t => by simp [beqFields]
  | (k, x) :: xs, (l, y) :: ys, s, t => by
    have hrest := fields_append_iff xs ys s t
    simp only [List.cons_append, List.cons_eq_cons] at hrest
    simp only [List.flatMap_cons, stream_append, List.append_assoc, List.cons_append, List.cons_eq_cons,
      text_append_iff, writes_append_iff x y, List.length_cons, Nat.add_right_cancel_iff, beqFields,
      Bool.and_eq_true, beq_iff_eq, and_assoc, ← hrest]
    rw [and_left_comm, and_left_comm (a := xs.length = ys.length)]

end

end Decoding

section Contents

theorem length_contentOfItems (vs : List Value) : (contentOfItems vs).length = vs.length := by
  induction vs with
  | nil => rfl
  | cons v vs ih => simp only [contentOfItems, List.length_cons, ih]

theorem length_contentOfFields (es : List (String × Value)) : (contentOfFields es).length = es.length := by
  induction es with
  | nil => rfl
  | cons e es ih => simp only [contentOfFields, List.length_cons, ih]

mutual

/-- What is written does not depend on allocations, nor on the names of classes and functions. -/
theorem feed_content : ∀ (v : Value) (rest : List HashWrite), feed v.content rest = feed v rest
  | undefined, _ | null, _ | bool _, _ | number (.int _), _ | number (.float _), _ | string _, _
  | function _, _ => rfl
  | list _ items, rest => by
    simp only [content, feed, feedItems_content items, length_contentOfItems]
  | record _ fields, rest => by
    simp only [content, feed, feedFields_content fields, length_contentOfFields]
  | inst _ _ fields, rest => by
    simp only [content, feed, feedFields_content fields, length_contentOfFields, Class.id]

theorem feedItems_content : ∀ (vs : List Value) (rest : List HashWrite),
    feedItems (contentOfItems vs) rest = feedItems vs rest
  | [], _ => rfl
  | v :: vs, rest => by simp only [contentOfItems, feedItems, feed_content v, feedItems_content vs]

theorem feedFields_content : ∀ (es : List (String × Value)) (rest : List HashWrite),
    feedFields (contentOfFields es) rest = feedFields es rest
  | [], _ => rfl
  | (k, v) :: es, rest => by
    simp only [contentOfFields, feedFields, feed_content v, feedFields_content es]

end

variable {a b : Value}

theorem writes_eq_of_beq (h : beq a b = true) : a.writes = b.writes := by
  rw [writes, writes, ← feed_content a, ← feed_content b, (beq_iff_content a b).mp h]

theorem beq_of_isPrefix_stream (h : stream a.writes <+: stream b.writes) : beq a b = true := by
  obtain ⟨t, ht⟩ := h
  exact ((writes_append_iff a b t []).mp (ht.trans (List.append_nil _).symm)).1

/-- Values are equal if they write the same. -/
theorem beq_iff_writes_eq : beq a b = true ↔ a.writes = b.writes :=
  ⟨writes_eq_of_beq, fun h => beq_of_isPrefix_stream (h ▸ List.prefix_rfl)⟩

theorem stream_isPrefix {ws ws' : List HashWrite} (h : ws <+: ws') : stream ws <+: stream ws' := by
  obtain ⟨rest, rfl⟩ := h
  exact ⟨stream rest, (stream_append ws rest).symm⟩

end Contents

end Value

end RuntimeContracts
