import Mathlib.Data.List.Forall2
import RuntimeContracts.Proofs.Ascending.Entries
import RuntimeContracts.Proofs.Spec.Transfer
import RuntimeContracts.Proofs.Value.Allocation

/-!
Further fields. A value that has the fields of another one and more, here or at any depth, matches whatever
the other one matches, unless a spec is about all fields of a record; and the other way round, unless a spec
is about the presence of some. Predicates may look at anything.
-/
namespace RuntimeContracts

namespace Value

mutual

/-- Whether the second value extends the first one. The leaves are the same, numbers exactly or by value, and
lists have one length, while records, and instances of one class, may have further fields. -/
def extendedBy : Value → Value → Bool
  | undefined, undefined => true
  | null, null => true
  | bool a, bool b => a == b
  | number a, number b => a == b || a.numericEq b
  | string a, string b => a == b
  | list _ xs, list _ ys => extendedByItems xs ys
  | record _ xs, record _ ys => extendedByFields xs ys
  | inst c _ xs, inst d _ ys => c == d && extendedByFields xs ys
  | function f, function g => f == g
  | _, _ => false

def extendedByItems : List Value → List Value → Bool
  | [], [] => true
  | x :: xs, y :: ys => extendedBy x y && extendedByItems xs ys
  | _, _ => false

def extendedByFields : List (String × Value) → List (String × Value) → Bool
  | [], _ => true
  | (name, x) :: xs, ys =>
    (match ys.lookup name with
      | some y => extendedBy x y
      | none => false) && extendedByFields xs ys

end

theorem extendedByItems_iff_forall₂ (xs ys : List Value) :
    extendedByItems xs ys = true ↔ List.Forall₂ (fun x y => x.extendedBy y = true) xs ys := by
  induction xs generalizing ys with
  | nil => cases ys <;> simp [extendedByItems]
  | cons x xs ih => cases ys <;> simp [extendedByItems, ih]

theorem extendedByFields_iff (xs ys : List (String × Value)) : extendedByFields xs ys = true ↔
    ∀ e ∈ xs, ∃ y, ys.lookup e.1 = some y ∧ e.2.extendedBy y = true := by
  induction xs with
  | nil => simp [extendedByFields]
  | cons e xs ih =>
    rw [extendedByFields, Bool.and_eq_true, ih, List.forall_mem_cons]
    cases ys.lookup e.1 <;> simp

section Parts

variable {v w : Value} (h : v.extendedBy w = true)

include h

theorem kind_eq_of_extendedBy : v.kind = w.kind := by
  cases v <;> cases w <;> first | rfl | cases h

theorem forall₂_items_of_extendedBy {xs ys : List Value} (hxs : v.items? = some xs)
    (hys : w.items? = some ys) : List.Forall₂ (fun x y => x.extendedBy y = true) xs ys := by
  cases v with
  | list id xs' =>
    cases w with
    | list id' ys' =>
      cases hxs
      cases hys
      exact (extendedByItems_iff_forall₂ xs ys).mp h
    | _ => cases hys
  | _ => cases hxs

/-- Every field of the smaller value is found in the larger one. -/
theorem exists_lookup_of_extendedBy {xs ys : List (String × Value)} (hxs : v.fields? = some xs)
    (hys : w.fields? = some ys) : ∀ e ∈ xs, ∃ y, ys.lookup e.1 = some y ∧ e.2.extendedBy y = true := by
  refine (extendedByFields_iff xs ys).mp ?_
  cases v with
  | record id xs' =>
    cases w with
    | record id' ys' =>
      cases hxs
      cases hys
      exact h
    | _ => cases h
  | inst c id xs' =>
    cases w with
    | inst d id' ys' =>
      cases hxs
      cases hys
      exact (Bool.and_eq_true_iff.mp h).2
    | _ => cases h
  | _ => cases hxs

/-- There is one class behind an identity. -/
theorem isInstanceOf_eq_of_extendedBy {known : Nat → Class} (hv : v.Declared known)
    (hw : w.Declared known) (cls : Class) : v.isInstanceOf cls = w.isInstanceOf cls := by
  cases v with
  | inst c id xs =>
    cases w with
    | inst d id' ys =>
      have hid : c.id = d.id := beq_iff_eq.mp (Bool.and_eq_true_iff.mp h).1
      have hcd : c = d := by
        rw [← hv c (List.mem_cons_self ..), hid, hw d (List.mem_cons_self ..)]
      exact congrArg (Class.isSubclassOf · cls) hcd
    | _ => cases h
  | _ => cases w <;> first | rfl | cases h

end Parts

structure Extends (known : Nat → Class) (v w : Value) : Prop where
  declared : v.Declared known
  declared' : w.Declared known
  extended : v.extendedBy w = true

namespace Extends

variable {known : Nat → Class} {v w : Value} (h : v.Extends known w)

include h

theorem item {xs ys : List Value} (hxs : v.items? = some xs) (hys : w.items? = some ys) {x y : Value}
    (hx : x ∈ xs) (hy : y ∈ ys) (hxy : x.extendedBy y = true) : x.Extends known y :=
  ⟨h.declared.items hxs x hx, h.declared'.items hys y hy, hxy⟩

/-- Every field of the first value is found in the second one. -/
theorem exists_lookup {xs ys : List (String × Value)} (hxs : v.fields? = some xs)
    (hys : w.fields? = some ys) {e : String × Value} (he : e ∈ xs) :
    ∃ y, ys.lookup e.1 = some y ∧ e.2.Extends known y := by
  obtain ⟨y, hy, hext⟩ := exists_lookup_of_extendedBy h.extended hxs hys e he
  have hmem := Ascending.mem_of_lookup hy
  exact ⟨y, hy, h.declared.fields hxs e he, h.declared'.fields hys (e.1, y) hmem, hext⟩

end Extends

end Value

namespace Spec

theorem exists_mem_of_forall₂ {α β : Type} {r : α → β → Prop} {xs : List α} {ys : List β}
    (h : List.Forall₂ r xs ys) : ∀ x ∈ xs, ∃ y ∈ ys, r x y := by
  induction h with
  | nil => exact nofun
  | cons hhead _ ih =>
    refine List.forall_mem_cons.mpr ⟨⟨_, List.mem_cons_self .., hhead⟩, fun x hx => ?_⟩
    obtain ⟨y, hy, hxy⟩ := ih x hx
    exact ⟨y, List.mem_cons_of_mem _ hy, hxy⟩

variable (ask : Callable → Value → Bool) (known : Nat → Class)

/-- From a value to what extends it: of further fields of a record nothing is known. -/
theorem carries_to_extension :
    Carries ask (fun k => k ≠ .recordOf ∧ k ≠ .predicate) (Value.Extends known) where
  kind _ _ h := Value.kind_eq_of_extendedBy h.extended
  isInstanceOf _ _ h := Value.isInstanceOf_eq_of_extendedBy h.extended h.declared h.declared'
  asked hk := absurd rfl hk.2
  items v w h xs ys hxs hys y hy := by
    have hitems := Value.forall₂_items_of_extendedBy h.extended hxs hys
    obtain ⟨x, hx, hxy⟩ := exists_mem_of_forall₂ hitems.flip y hy
    exact ⟨x, hx, h.item hxs hys hx hy hxy⟩
  fields _ v w h xs ys hxs hys name x hx := h.exists_lookup hxs hys (Ascending.mem_of_lookup hx)
  record hk := absurd rfl hk.1

/-- From a value to what it extends: further fields may be missing. -/
theorem carries_from_extension :
    Carries ask (fun k => k ≠ .duck ∧ k ≠ .predicate) (fun w v => v.Extends known w) where
  kind _ _ h := (Value.kind_eq_of_extendedBy h.extended).symm
  isInstanceOf _ _ h cls :=
    (Value.isInstanceOf_eq_of_extendedBy h.extended h.declared h.declared' cls).symm
  asked hk := absurd rfl hk.2
  items w v h ys xs hys hxs x hx := by
    obtain ⟨y, hy, hxy⟩ :=
      exists_mem_of_forall₂ (Value.forall₂_items_of_extendedBy h.extended hxs hys) x hx
    exact ⟨y, hy, h.item hxs hys hx hy hxy⟩
  fields hk := absurd rfl hk.1
  record _ w v h ys xs hys hxs e he := by
    obtain ⟨y, hy, hext⟩ :=
      h.exists_lookup (Value.fields?_of_record? hxs) (Value.fields?_of_record? hys) he
    exact ⟨(e.1, y), Ascending.mem_of_lookup hy, hext⟩

/-- A spec that does not ask about all fields of a record still matches when there are further fields, at
whatever depth. A spec that does not ask for single fields has matched without them already. -/
theorem further_fields_are_harmless {v w : Value} (hv : v.Declared known) (hw : w.Declared known)
    (h : v.extendedBy w = true) (s : Spec) (hpredicate : .predicate ∉ s.formers) :
    (.recordOf ∉ s.formers → s.matchesValue ask v → s.matchesValue ask w) ∧
      (.duck ∉ s.formers → s.matchesValue ask w → s.matchesValue ask v) := by
  have hextends : v.Extends known w := ⟨hv, hw, h⟩
  constructor
  · intro hrecord
    refine (carries_to_extension ask known).matches s (fun k hk => ⟨?_, ?_⟩) hextends
    · exact fun heq => hrecord (heq ▸ hk)
    · exact fun heq => hpredicate (heq ▸ hk)
  · intro hduck
    refine (carries_from_extension ask known).matches s (fun k hk => ⟨?_, ?_⟩) hextends
    · exact fun heq => hduck (heq ▸ hk)
    · exact fun heq => hpredicate (heq ▸ hk)

/-- An instance and a record in a list, both with one further field. The last spec is about all fields of the
record and does not put up with the further one. -/
theorem further_fields_are_harmless_paper :
    let ask : Callable → Value → Bool := fun _ _ => false
    let point := Class.root 0 "Point"
    let one := Value.float ⟨0x3ff0000000000000⟩
    let v := Value.list 3 [.instantiate point 1 [("x", .int 1)], .ofEntries 2 [("ink", .string "red")]]
    let w := Value.list 6 [.instantiate point 4 [("y", .null), ("x", one)],
      .ofEntries 5 [("paper", .int 1), ("ink", .string "red")]]
    let s := listOf (anyOf [duck [("x", native .number)], duck [("ink", native .string)]])
    let t := listOf (anyOf [instanceOf point, recordOf (anyOf [native .number, native .string])])
    let u := listOf (anyOf [instanceOf point, recordOf (native .string)])
    (∃ known, v.Declared known ∧ w.Declared known) ∧ v.extendedBy w = true ∧ w.extendedBy v = false ∧
      s.matchesValue ask v ∧ s.matchesValue ask w ∧ t.matchesValue ask w ∧ t.matchesValue ask v ∧
        u.matchesValue ask v ∧ u.matchesValue ask w = false := by
  intro ask point one v w s t u
  have hmade : Relation.ReflTransGen Stock.Step .empty ⟨7, [point], [w,
      .ofEntries 5 [("paper", .int 1), ("ink", .string "red")],
      .instantiate point 4 [("y", .null), ("x", one)], v, .ofEntries 2 [("ink", .string "red")],
      .instantiate point 1 [("x", .int 1)], .null, one, .string "red", .int 1]⟩ := by
    refine Relation.ReflTransGen.tail (.tail (.tail (.tail (.tail (.tail (.tail (.tail (.tail (.tail (.single
      (.root "Point")) (.plain (.int 1) rfl)) (.plain (.string "red") rfl)) (.plain one rfl))
      (.plain .null rfl)) (.inst point ?_ [("x", .int 1)] ?_)) (.record [("ink", .string "red")] ?_))
      (.list [.instantiate point 1 [("x", .int 1)], .ofEntries 2 [("ink", .string "red")]] ?_))
      (.inst point ?_ [("y", .null), ("x", one)] ?_))
      (.record [("paper", .int 1), ("ink", .string "red")] ?_))
      (.list [.instantiate point 4 [("y", .null), ("x", one)],
        .ofEntries 5 [("paper", .int 1), ("ink", .string "red")]] ?_)
    all_goals simp [Stock.empty, Stock.define, Stock.keep, Stock.allocate, point]
  obtain ⟨memory, hlives⟩ := Stock.exists_livesIn hmade
  have hv : v.Declared memory.classes := (hlives v (by simp)).declared
  have hw : w.Declared memory.classes := (hlives w (by simp)).declared
  have h : v.extendedBy w = true := by decide +kernel
  have hs : s.matchesValue ask v = true := by decide +kernel
  have ht : t.matchesValue ask w = true := by decide +kernel
  have hforth := (further_fields_are_harmless ask memory.classes hv hw h s (by decide)).1 (by decide) hs
  have hback := (further_fields_are_harmless ask memory.classes hv hw h t (by decide)).2 (by decide) ht
  exact ⟨⟨memory.classes, hv, hw⟩, h, by decide +kernel, hs, hforth, ht, hback, by decide +kernel,
    by decide +kernel⟩

end Spec

end RuntimeContracts
