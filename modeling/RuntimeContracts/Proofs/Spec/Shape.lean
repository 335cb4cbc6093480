import RuntimeContracts.Proofs.Spec.Simulation
import RuntimeContracts.Proofs.Value.Shape

/-!
Matches look at shapes. If the predicates of a spec cannot tell a value from its shape, then the spec
cannot either; a spec without predicates never can. So exactly equal values match the same of them.
-/
namespace RuntimeContracts.Spec

variable {m : Type → Type} [Monad m]

theorem allM_map_of_eq {α β : Type} (g : α → β) {p : α → m Bool} {q : β → m Bool} (items : List α)
    (h : ∀ a ∈ items, q (g a) = p a) : (items.map g).allM q = items.allM p := by
  induction items with
  | nil => rfl
  | cons a rest ih =>
    have hrest := ih fun b hb => h b (List.mem_cons_of_mem _ hb)
    simp only [List.map_cons, List.allM, h a (List.mem_cons_self ..), hrest]

theorem lookup_map_snd {α β : Type} (g : α → β) (name : String) (fields : List (String × α)) :
    (fields.map fun e => (e.1, g e.2)).lookup name = (fields.lookup name).map g := by
  induction fields with
  | nil => rfl
  | cons e rest ih =>
    rw [List.map_cons, List.lookup_cons, List.lookup_cons, ih]
    cases name == e.1 <;> rfl

theorem exists_mem_of_lookup {α : Type} {name : String} {a : α} {fields : List (String × α)}
    (h : fields.lookup name = some a) : ∃ e ∈ fields, e.2 = a := by
  induction fields with
  | nil => cases h
  | cons e rest ih =>
    rw [List.lookup_cons] at h
    cases hname : name == e.1 with
    | true =>
      rw [hname] at h
      exact ⟨e, List.mem_cons_self .., Option.some.inj h⟩
    | false =>
      rw [hname] at h
      obtain ⟨e', he', ha⟩ := ih h
      exact ⟨e', List.mem_cons_of_mem _ he', ha⟩

variable (known : Nat → Class) (ask : Callable → Value → m Bool)

def Indifferent (f : Callable) : Prop :=
  ∀ v : Value, v.Declared known → ask f (v.shape known) = ask f v

mutual

theorem matchesM_shape : ∀ (s : Spec) (v : Value), (∀ f ∈ s.predicates, Indifferent known ask f) →
    v.Declared known → s.matchesM ask (v.shape known) = s.matchesM ask v
  | native k, v, _, _ => by rw [matchesM, matchesM, Value.kind_shape]
  | predicate f, v, hs, hv => hs f (List.mem_singleton_self f) v hv
  | instanceOf cls, v, _, hv => by rw [matchesM, matchesM, Value.isInstanceOf_shape hv]
  | duck wanted, v, hs, hv => by
    rw [matchesM, matchesM, Value.fields?_shape]
    cases hfields : v.fields? with
    | none => rfl
    | some fields => exact matchesFieldsM_shape wanted fields hs (hv.fields hfields)
  | anyOf members, v, hs, hv => matchesAnyM_shape members v hs hv
  | listOf element, v, hs, hv => by
    rw [matchesM, matchesM, Value.items?_shape]
    cases hitems : v.items? with
    | none => rfl
    | some items =>
      exact allM_map_of_eq _ items fun item hitem =>
        matchesM_shape element item hs (hv.items hitems item hitem)
  | recordOf field, v, hs, hv => by
    rw [matchesM, matchesM, Value.record?_shape]
    cases hrecord : v.record? with
    | none => rfl
    | some fields =>
      have hfields := Value.fields?_of_record? hrecord
      exact allM_map_of_eq _ fields fun e he =>
        matchesM_shape field e.2 hs (hv.fields hfields e he)
  | optional inner, v, hs, hv => matchesM_shape inner v hs hv
  | any, _, _, _ => rfl

theorem matchesFieldsM_shape : ∀ (wanted : List (String × Spec)) (fields : List (String × Value)),
    (∀ f ∈ predicatesOfFields wanted, Indifferent known ask f) →
      (∀ e ∈ fields, e.2.Declared known) →
        matchesFieldsM ask wanted (fields.map fun e => (e.1, e.2.shape known)) =
          matchesFieldsM ask wanted fields
  | [], _, _, _ => rfl
  | (name, s) :: rest, fields, hs, hfields => by
    rw [matchesFieldsM, matchesFieldsM, lookup_map_snd]
    have hhead := fun f hf => hs f (List.mem_append_left _ hf)
    have hrest := matchesFieldsM_shape rest fields (fun f hf => hs f (List.mem_append_right _ hf)) hfields
    cases hfield : fields.lookup name with
    | none => rfl
    | some v =>
      obtain ⟨e, he, rfl⟩ := exists_mem_of_lookup hfield
      simp only [Option.map_some, matchesM_shape s e.2 hhead (hfields e he), hrest]

theorem matchesAnyM_shape : ∀ (members : List Spec) (v : Value),
    (∀ f ∈ predicatesOf members, Indifferent known ask f) → v.Declared known →
      matchesAnyM ask members (v.shape known) = matchesAnyM ask members v
  | [], _, _, _ => rfl
  | s :: rest, v, hs, hv => by
    have hhead := matchesM_shape s v (fun f hf => hs f (List.mem_append_left _ hf)) hv
    have hrest := matchesAnyM_shape rest v (fun f hf => hs f (List.mem_append_right _ hf)) hv
    rw [matchesAnyM, matchesAnyM, hhead, hrest]

end

end RuntimeContracts.Spec
