import RuntimeContracts.Proofs.Spec.Meaning

/-!
Matches carried from one value to another. What a spec asks of a value, and of its parts, depends on how the
spec is formed. A relation of values that carries over the answers to these questions carries over matches.
-/
namespace RuntimeContracts

namespace Value

section Kinds

variable {v w : Value} (h : v.kind = w.kind)

include h

theorem exists_items?_of_kind_eq {xs : List Value} (hxs : v.items? = some xs) :
    ∃ ys, w.items? = some ys := by
  cases v with
  | list id xs' =>
    cases w with
    | list id' ys => exact ⟨ys, rfl⟩
    | _ => cases h
  | _ => cases hxs

theorem exists_record?_of_kind_eq {xs : List (String × Value)} (hxs : v.record? = some xs) :
    ∃ ys, w.record? = some ys := by
  cases v with
  | record id xs' =>
    cases w with
    | record id' ys => exact ⟨ys, rfl⟩
    | _ => cases h
  | _ => cases hxs

theorem exists_fields?_of_kind_eq {xs : List (String × Value)} (hxs : v.fields? = some xs) :
    ∃ ys, w.fields? = some ys := by
  cases v with
  | record id xs' =>
    cases w with
    | record id' ys => exact ⟨ys, rfl⟩
    | _ => cases h
  | inst cls id xs' =>
    cases w with
    | inst cls' id' ys => exact ⟨ys, rfl⟩
    | _ => cases h
  | _ => cases hxs

end Kinds

end Value

namespace Spec

inductive Former where
  | native
  | predicate
  | instanceOf
  | duck
  | anyOf
  | listOf
  | recordOf
  | optional
  | any
deriving DecidableEq

mutual

def formers : Spec → List Former
  | native _ => [.native]
  | predicate _ => [.predicate]
  | instanceOf _ => [.instanceOf]
  | duck fields => .duck :: formersOfFields fields
  | anyOf members => .anyOf :: formersOf members
  | listOf element => .listOf :: formers element
  | recordOf field => .recordOf :: formers field
  | optional inner => .optional :: formers inner
  | any => [.any]

def formersOf : List Spec → List Former
  | [] => []
  | s :: rest => formers s ++ formersOf rest

def formersOfFields : List (String × Spec) → List Former
  | [] => []
  | (_, s) :: rest => formers s ++ formersOfFields rest

end

theorem formersOf_eq_flatMap (members : List Spec) : formersOf members = members.flatMap formers := by
  induction members with
  | nil => rfl
  | cons s rest ih => rw [formersOf, ih, List.flatMap_cons]

theorem formersOfFields_eq_flatMap (fields : List (String × Spec)) :
    formersOfFields fields = fields.flatMap fun e => e.2.formers := by
  induction fields with
  | nil => rfl
  | cons e rest ih => rw [formersOfFields, ih, List.flatMap_cons]

theorem mem_formers_anyOf {t : Spec} {members : List Spec} (ht : t ∈ members) {k : Former}
    (hk : k ∈ t.formers) : k ∈ (anyOf members).formers := by
  rw [formers, formersOf_eq_flatMap]
  exact List.mem_cons_of_mem _ (List.mem_flatMap.mpr ⟨t, ht, hk⟩)

theorem mem_formers_duck {e : String × Spec} {fields : List (String × Spec)} (he : e ∈ fields) {k : Former}
    (hk : k ∈ e.2.formers) : k ∈ (duck fields).formers := by
  rw [formers, formersOfFields_eq_flatMap]
  exact List.mem_cons_of_mem _ (List.mem_flatMap.mpr ⟨e, he, hk⟩)

/-- Induction over a spec, with the hypothesis for all of its fields and members. -/
theorem induction {motive : Spec → Prop} (native : ∀ k, motive (native k))
    (predicate : ∀ f, motive (predicate f)) (instanceOf : ∀ cls, motive (instanceOf cls))
    (duck : ∀ fields : List (String × Spec), (∀ e ∈ fields, motive e.2) → motive (duck fields))
    (anyOf : ∀ members : List Spec, (∀ t ∈ members, motive t) → motive (anyOf members))
    (listOf : ∀ element, motive element → motive (listOf element))
    (recordOf : ∀ field, motive field → motive (recordOf field))
    (optional : ∀ inner, motive inner → motive (optional inner)) (any : motive any) (s : Spec) :
    motive s := by
  refine @Spec.rec motive (fun fields => ∀ e ∈ fields, motive e.2) (fun members => ∀ t ∈ members, motive t)
    (fun e => motive e.2) native predicate instanceOf duck anyOf listOf recordOf optional any ?_ ?_ ?_ ?_ ?_ s
  · exact nofun
  · exact fun e rest he hrest => List.forall_mem_cons.mpr ⟨he, hrest⟩
  · exact nofun
  · exact fun t rest ht hrest => List.forall_mem_cons.mpr ⟨ht, hrest⟩
  · exact fun _ _ ht => ht

/-- The relation carries over what specs ask that are formed in an allowed way. -/
structure Carries (ask : Callable → Value → Bool) (allowed : Former → Prop) (r : Value → Value → Prop) :
    Prop where
  kind : ∀ v w, r v w → v.kind = w.kind
  isInstanceOf : ∀ v w, r v w → ∀ cls, v.isInstanceOf cls = w.isInstanceOf cls
  asked : allowed .predicate → ∀ v w, r v w → ∀ f, ask f v → ask f w
  items : ∀ v w, r v w → ∀ xs ys, v.items? = some xs → w.items? = some ys → ∀ y ∈ ys, ∃ x ∈ xs, r x y
  fields : allowed .duck → ∀ v w, r v w → ∀ xs ys, v.fields? = some xs → w.fields? = some ys →
    ∀ name x, xs.lookup name = some x → ∃ y, ys.lookup name = some y ∧ r x y
  record : allowed .recordOf → ∀ v w, r v w → ∀ xs ys, v.record? = some xs → w.record? = some ys →
    ∀ e ∈ ys, ∃ d ∈ xs, r d.2 e.2

/-- What matches before matches after. -/
theorem Carries.matches {ask : Callable → Value → Bool} {allowed : Former → Prop}
    {r : Value → Value → Prop} (h : Carries ask allowed r) (s : Spec) (hs : ∀ k ∈ s.formers, allowed k)
    {v w : Value} (hvw : r v w) (hmatch : s.matchesValue ask v) : s.matchesValue ask w := by
  induction s using induction generalizing v w with
  | native k =>
    rw [matchesValue_native] at hmatch ⊢
    rwa [← h.kind v w hvw]
  | predicate f =>
    rw [matchesValue_predicate] at hmatch ⊢
    exact h.asked (hs .predicate (List.mem_singleton_self _)) v w hvw f hmatch
  | instanceOf cls =>
    rw [matchesValue_instanceOf] at hmatch ⊢
    rwa [← h.isInstanceOf v w hvw]
  | duck wanted ih =>
    obtain ⟨xs, hxs, hall⟩ := (matchesValue_duck_iff ask v wanted).mp hmatch
    obtain ⟨ys, hys⟩ := Value.exists_fields?_of_kind_eq (h.kind v w hvw) hxs
    have hlookup := h.fields (hs .duck (List.mem_cons_self ..)) v w hvw xs ys hxs hys
    refine (matchesValue_duck_iff ask w wanted).mpr ⟨ys, hys, fun e he => ?_⟩
    obtain ⟨x, hx, hmatch⟩ := hall e he
    obtain ⟨y, hy, hxy⟩ := hlookup e.1 x hx
    have hformers (k : Former) (hk : k ∈ e.2.formers) : allowed k :=
      hs k (mem_formers_duck he hk)
    exact ⟨y, hy, ih e he hformers hxy hmatch⟩
  | anyOf members ih =>
    obtain ⟨t, ht, hmatch⟩ := (matchesValue_anyOf_iff ask v members).mp hmatch
    have hformers (k : Former) (hk : k ∈ t.formers) : allowed k :=
      hs k (mem_formers_anyOf ht hk)
    exact (matchesValue_anyOf_iff ask w members).mpr ⟨t, ht, ih t ht hformers hvw hmatch⟩
  | listOf element ih =>
    obtain ⟨xs, hxs, hall⟩ := (matchesValue_listOf_iff ask v element).mp hmatch
    obtain ⟨ys, hys⟩ := Value.exists_items?_of_kind_eq (h.kind v w hvw) hxs
    refine (matchesValue_listOf_iff ask w element).mpr ⟨ys, hys, fun y hy => ?_⟩
    obtain ⟨x, hx, hxy⟩ := h.items v w hvw xs ys hxs hys y hy
    exact ih (fun k hk => hs k (List.mem_cons_of_mem _ hk)) hxy (hall x hx)
  | recordOf field ih =>
    obtain ⟨xs, hxs, hall⟩ := (matchesValue_recordOf_iff ask v field).mp hmatch
    obtain ⟨ys, hys⟩ := Value.exists_record?_of_kind_eq (h.kind v w hvw) hxs
    have hrecord := h.record (hs .recordOf (List.mem_cons_self ..)) v w hvw xs ys hxs hys
    refine (matchesValue_recordOf_iff ask w field).mpr ⟨ys, hys, fun e he => ?_⟩
    obtain ⟨d, hd, hde⟩ := hrecord e he
    exact ih (fun k hk => hs k (List.mem_cons_of_mem _ hk)) hde (hall d hd)
  | optional inner ih =>
    rw [matchesValue_optional] at hmatch ⊢
    exact ih (fun k hk => hs k (List.mem_cons_of_mem _ hk)) hvw hmatch
  | any => exact matchesValue_any ask w

end Spec

end RuntimeContracts
