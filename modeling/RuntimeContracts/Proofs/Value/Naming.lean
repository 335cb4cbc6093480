import RuntimeContracts.Proofs.Value.Allocation
import RuntimeContracts.Value.Rendering

/-!
The text of a value is that of its content with the classes and the functions put back that are known by
their identities. So exactly equal values have the same text, where there is one class behind the identity of
a class and one name behind the body of a function.
-/
namespace RuntimeContracts.Value

variable (classes : Nat → Class) (names : Nat → String)

def Named (v : Value) : Prop := ∀ f, function f ∈ v.parts → f.name = names f.body

structure Known (v : Value) : Prop where
  declared : v.Declared classes
  named : v.Named names

mutual

def resolve : Value → Value
  | undefined => undefined
  | null => null
  | bool b => bool b
  | number n => number n
  | string s => string s
  | list _ items => list 0 (resolveItems items)
  | record _ fields => record 0 (resolveFields fields)
  | inst c _ fields => inst (classes c.id) 0 (resolveFields fields)
  | function f => function ⟨names f.body, [], f.body⟩

def resolveItems : List Value → List Value
  | [] => []
  | v :: vs => resolve v :: resolveItems vs

def resolveFields : List (String × Value) → List (String × Value)
  | [] => []
  | (k, v) :: es => (k, resolve v) :: resolveFields es

end

mutual

theorem resolve_content : ∀ v : Value, v.content.resolve classes names = v.resolve classes names
  | undefined | null | bool _ | number _ | string _ | function _ => rfl
  | list _ items => by simp only [content, resolve, resolveItems_content items]
  | record _ fields => by simp only [content, resolve, resolveFields_content fields]
  | inst c _ fields => by
    simp only [content, resolve, resolveFields_content fields]
    rfl

theorem resolveItems_content : ∀ vs : List Value,
    resolveItems classes names (contentOfItems vs) = resolveItems classes names vs
  | [] => rfl
  | v :: vs => by simp only [contentOfItems, resolveItems, resolve_content v, resolveItems_content vs]

theorem resolveFields_content : ∀ es : List (String × Value),
    resolveFields classes names (contentOfFields es) = resolveFields classes names es
  | [] => rfl
  | (k, v) :: es => by
    simp only [contentOfFields, resolveFields, resolve_content v, resolveFields_content es]

end

section Known

variable {classes names} {v : Value} (h : v.Known classes names)

include h

theorem Known.within {u : Value} (hu : u.Within v) : u.Known classes names :=
  ⟨fun c hc => h.declared c (hu.classes hc), fun f hf => h.named f (hu.parts hf)⟩

theorem Known.item {items : List Value} (hitems : v.items? = some items) :
    ∀ u ∈ items, u.Known classes names :=
  fun _ hu => h.within (within_of_items? hitems hu)

theorem Known.field {fields : List (String × Value)} (hfields : v.fields? = some fields) :
    ∀ e ∈ fields, e.2.Known classes names :=
  fun _ he => h.within (within_of_fields? hfields he)

end Known

section Rendering

variable {classes names}

mutual

/-- A value that knows its classes and functions is rendered alike when they are looked up. -/
theorem renderOnto_resolve : ∀ (v : Value), v.Known classes names → ∀ rest,
    (v.resolve classes names).renderOnto rest = v.renderOnto rest
  | undefined, _, _ | null, _, _ | bool _, _, _ | number _, _, _ | string _, _, _ => rfl
  | list _ items, h, rest => by
    change '[' :: renderItems (resolveItems classes names items) _ = '[' :: renderItems items _
    rw [renderItems_resolve items (h.item rfl)]
  | record _ fields, h, rest => by
    change '\x7b' :: renderFields (resolveFields classes names fields) _ = '\x7b' :: renderFields fields _
    rw [renderFields_resolve fields (h.field rfl)]
  | inst c _ fields, h, rest => by
    have hc : classes c.id = c := h.declared c (List.mem_cons_self ..)
    change (classes c.id).name.toList ++
        ' ' :: '\x7b' :: renderFields (resolveFields classes names fields) _ =
      c.name.toList ++ ' ' :: '\x7b' :: renderFields fields _
    rw [hc, renderFields_resolve fields (h.field rfl)]
  | function f, h, rest => by
    have hf : f.name = names f.body := h.named f (List.mem_cons_self ..)
    change "<function ".toList ++ (names f.body).toList ++ '>' :: rest =
      "<function ".toList ++ f.name.toList ++ '>' :: rest
    rw [hf]

theorem renderItems_resolve : ∀ (vs : List Value), (∀ v ∈ vs, v.Known classes names) → ∀ rest,
    renderItems (resolveItems classes names vs) rest = renderItems vs rest
  | [], _, _ => rfl
  | [v], h, rest => by
    simp only [resolveItems, renderItems, renderOnto_resolve v (h v (List.mem_cons_self ..))]
  | v :: w :: vs, h, rest => by
    obtain ⟨hv, hvs⟩ := List.forall_mem_cons.mp h
    have hrest := renderItems_resolve (w :: vs) hvs rest
    simp only [resolveItems] at hrest
    simp only [resolveItems]
    rw [renderItems, renderItems, hrest, renderOnto_resolve v hv]

theorem renderFields_resolve : ∀ (es : List (String × Value)), (∀ e ∈ es, e.2.Known classes names) →
    ∀ rest, renderFields (resolveFields classes names es) rest = renderFields es rest
  | [], _, _ => rfl
  | [(k, v)], h, rest => by
    simp only [resolveFields, renderFields, renderOnto_resolve v (h (k, v) (List.mem_cons_self ..))]
  | (k, v) :: e :: es, h, rest => by
    obtain ⟨hv, hes⟩ := List.forall_mem_cons.mp h
    have hrest := renderFields_resolve (e :: es) hes rest
    simp only [resolveFields] at hrest
    simp only [resolveFields]
    rw [renderFields, renderFields, hrest, renderOnto_resolve v hv]

end

/-- Exactly equal values have the same text. -/
theorem render_eq_of_beq {a b : Value} (ha : a.Known classes names) (hb : b.Known classes names)
    (h : beq a b = true) : a.render = b.render := by
  unfold render
  rw [← renderOnto_resolve a ha, ← renderOnto_resolve b hb, ← resolve_content,
    ← resolve_content classes names b, (beq_iff_content a b).mp h]

end Rendering

end RuntimeContracts.Value
