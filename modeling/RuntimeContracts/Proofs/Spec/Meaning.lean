import RuntimeContracts.Spec.Matching

/-!
What specs mean, for predicates that answer by their argument alone. The order and the number of questions
do not matter then: a spec with parts holds if some or all of its parts hold of some or all parts of the
value.
-/
namespace RuntimeContracts.Spec

theorem id_allM_iff {α : Type} (p : α → Id Bool) (items : List α) :
    Id.run (items.allM p) = true ↔ ∀ a ∈ items, Id.run (p a) = true := by
  change Id.run (items.allM fun a => pure (p a).run) = true ↔ _
  rw [List.allM_pure, Id.run_pure, List.all_eq_true]

variable (ask : Callable → Value → Bool)

theorem matchesFieldsM_iff (wanted : List (String × Spec)) (fields : List (String × Value)) :
    Id.run (matchesFieldsM (fun f w => pure (ask f w)) wanted fields) = true ↔
      ∀ e ∈ wanted, ∃ u, fields.lookup e.1 = some u ∧ e.2.matchesValue ask u := by
  induction wanted with
  | nil => simp [matchesFieldsM]
  | cons e rest ih =>
    obtain ⟨name, s⟩ := e
    rw [matchesFieldsM, List.forall_mem_cons, ← ih]
    cases fields.lookup name with
    | none => simp
    | some u =>
      have hhead : Id.run (s.matchesM (fun f w => pure (ask f w)) u) = s.matchesValue ask u := rfl
      simp only [Id.run_bind, hhead]
      cases h : s.matchesValue ask u <;> simp [h]

theorem matchesAnyM_iff (members : List Spec) (v : Value) :
    Id.run (matchesAnyM (fun f w => pure (ask f w)) members v) = true ↔
      ∃ t ∈ members, t.matchesValue ask v := by
  induction members with
  | nil => simp [matchesAnyM]
  | cons s rest ih =>
    have hhead : Id.run (s.matchesM (fun f w => pure (ask f w)) v) = s.matchesValue ask v := rfl
    simp only [matchesAnyM, List.mem_cons, exists_eq_or_imp, ← ih, Id.run_bind, hhead]
    cases s.matchesValue ask v <;> simp

section Constructors

variable (v : Value)

@[simp]
theorem matchesValue_native (k : NativeKind) : (native k).matchesValue ask v = k.admits v.kind := rfl

@[simp]
theorem matchesValue_predicate (f : Callable) : (predicate f).matchesValue ask v = ask f v := rfl

@[simp]
theorem matchesValue_instanceOf (cls : Class) :
    (instanceOf cls).matchesValue ask v = v.isInstanceOf cls := rfl

theorem matchesValue_duck_iff (wanted : List (String × Spec)) : (duck wanted).matchesValue ask v ↔
    ∃ fields, v.fields? = some fields ∧
      ∀ e ∈ wanted, ∃ u, fields.lookup e.1 = some u ∧ e.2.matchesValue ask u := by
  simp only [← matchesFieldsM_iff]
  rw [matchesValue, matchesM]
  cases v.fields? <;> simp

/-- A choice matches what one of its alternatives does. -/
theorem matchesValue_anyOf_iff (members : List Spec) :
    (anyOf members).matchesValue ask v ↔ ∃ t ∈ members, t.matchesValue ask v :=
  matchesAnyM_iff ask members v

/-- An element spec matches the lists whose items it matches one by one. -/
theorem matchesValue_listOf_iff (element : Spec) : (listOf element).matchesValue ask v ↔
    ∃ items, v.items? = some items ∧ ∀ u ∈ items, element.matchesValue ask u := by
  rw [matchesValue, matchesM]
  cases v.items? with
  | none => simp
  | some items =>
    rw [id_allM_iff]
    simp [matchesValue]

theorem matchesValue_recordOf_iff (field : Spec) : (recordOf field).matchesValue ask v ↔
    ∃ fields, v.record? = some fields ∧ ∀ e ∈ fields, field.matchesValue ask e.2 := by
  rw [matchesValue, matchesM]
  cases v.record? with
  | none => simp
  | some fields =>
    rw [id_allM_iff]
    simp [matchesValue]

@[simp]
theorem matchesValue_optional (inner : Spec) :
    (optional inner).matchesValue ask v = inner.matchesValue ask v := rfl

@[simp]
theorem matchesValue_any : any.matchesValue ask v = true := rfl

end Constructors

end RuntimeContracts.Spec
