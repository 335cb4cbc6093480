import RuntimeContracts.Proofs.Value.Equality

/-!
The shape of a value, which is what a match without predicates and a report of what was found can see of
it: the kinds and the classes of its parts and the names of their fields, but no allocation and nothing of
what numbers, strings, booleans and functions are. Exactly equal values have one shape. Since classes are
compared by their identities, a shape takes the class of an identity from outside, and stands for values
whose classes are declared there.
-/
namespace RuntimeContracts.Value

mutual

def classes : Value → List Class
  | undefined => []
  | null => []
  | bool _ => []
  | number _ => []
  | string _ => []
  | list _ items => classesOfItems items
  | record _ fields => classesOfFields fields
  | inst c _ fields => c :: classesOfFields fields
  | function _ => []

def classesOfItems : List Value → List Class
  | [] => []
  | v :: vs => classes v ++ classesOfItems vs

def classesOfFields : List (String × Value) → List Class
  | [] => []
  | (_, v) :: es => classes v ++ classesOfFields es

end

variable (known : Nat → Class)

def Declared (v : Value) : Prop := ∀ c ∈ v.classes, known c.id = c

mutual

/-- The value with one value for each kind in place of numbers, strings, booleans and functions, without
allocations, and with the classes that are known. -/
def shape : Value → Value
  | undefined => undefined
  | null => null
  | bool _ => bool false
  | number _ => int 0
  | string _ => string ""
  | list _ items => list 0 (shapeOfItems items)
  | record _ fields => record 0 (shapeOfFields fields)
  | inst c _ fields => inst (known c.id) 0 (shapeOfFields fields)
  | function _ => function ⟨"", [], 0⟩

def shapeOfItems : List Value → List Value
  | [] => []
  | v :: vs => shape v :: shapeOfItems vs

def shapeOfFields : List (String × Value) → List (String × Value)
  | [] => []
  | (k, v) :: es => (k, shape v) :: shapeOfFields es

end

section Content

mutual

theorem shape_content : ∀ v : Value, v.content.shape known = v.shape known
  | undefined | null | bool _ | number _ | string _ | function _ => rfl
  | list _ items => by simp only [content, shape, shapeOfItems_content items]
  | record _ fields => by simp only [content, shape, shapeOfFields_content fields]
  | inst c _ fields => by
    simp only [content, shape, shapeOfFields_content fields]
    rfl

theorem shapeOfItems_content :
    ∀ vs : List Value, shapeOfItems known (contentOfItems vs) = shapeOfItems known vs
  | [] => rfl
  | v :: vs => by simp only [contentOfItems, shapeOfItems, shape_content v, shapeOfItems_content vs]

theorem shapeOfFields_content : ∀ es : List (String × Value),
    shapeOfFields known (contentOfFields es) = shapeOfFields known es
  | [] => rfl
  | (k, v) :: es => by
    simp only [contentOfFields, shapeOfFields, shape_content v, shapeOfFields_content es]

end

/-- Equal values have one shape. -/
theorem shape_eq_of_beq {a b : Value} (h : beq a b = true) : a.shape known = b.shape known := by
  rw [← shape_content, (beq_iff_content a b).mp h, shape_content]

theorem shapeOfItems_eq_map (vs : List Value) : shapeOfItems known vs = vs.map (shape known) := by
  induction vs with
  | nil => rfl
  | cons v vs ih => rw [shapeOfItems, ih, List.map_cons]

theorem shapeOfFields_eq_map (es : List (String × Value)) :
    shapeOfFields known es = es.map fun e => (e.1, e.2.shape known) := by
  induction es with
  | nil => rfl
  | cons e es ih => rw [shapeOfFields, ih, List.map_cons]

theorem map_shape_eq_of_beqItems {xs ys : List Value} (h : beqItems xs ys = true) :
    xs.map (shape known) = ys.map (shape known) := by
  rw [← shapeOfItems_eq_map, ← shapeOfItems_content, (beqItems_iff_content xs ys).mp h,
    shapeOfItems_content, shapeOfItems_eq_map]

end Content

section Parts

theorem mem_classesOfItems_iff {vs : List Value} {c : Class} :
    c ∈ classesOfItems vs ↔ ∃ v ∈ vs, c ∈ v.classes := by
  induction vs with
  | nil => simp [classesOfItems]
  | cons v vs ih => simp [classesOfItems, ih]

theorem mem_classesOfFields_iff {es : List (String × Value)} {c : Class} :
    c ∈ classesOfFields es ↔ ∃ e ∈ es, c ∈ e.2.classes := by
  induction es with
  | nil => simp [classesOfFields]
  | cons e es ih => simp [classesOfFields, ih]

variable {known}

theorem Declared.items {v : Value} (h : v.Declared known) {items : List Value}
    (hitems : v.items? = some items) : ∀ item ∈ items, item.Declared known := by
  intro item hitem c hc
  cases v with
  | list id xs =>
    obtain rfl : xs = items := Option.some.inj hitems
    exact h c (mem_classesOfItems_iff.mpr ⟨item, hitem, hc⟩)
  | _ => cases hitems

theorem Declared.fields {v : Value} (h : v.Declared known) {fields : List (String × Value)}
    (hfields : v.fields? = some fields) : ∀ e ∈ fields, e.2.Declared known := by
  intro e he c hc
  cases v with
  | record id es =>
    obtain rfl : es = fields := Option.some.inj hfields
    exact h c (mem_classesOfFields_iff.mpr ⟨e, he, hc⟩)
  | inst cls id es =>
    obtain rfl : es = fields := Option.some.inj hfields
    exact h c (List.mem_cons_of_mem _ (mem_classesOfFields_iff.mpr ⟨e, he, hc⟩))
  | _ => cases hfields

theorem fields?_of_record? {v : Value} {fields : List (String × Value)} (h : v.record? = some fields) :
    v.fields? = some fields := by
  cases v with
  | record id es => exact h
  | _ => cases h

end Parts

section Seen

variable (v : Value)

theorem kind_shape : (v.shape known).kind = v.kind := by
  cases v <;> rfl

theorem items?_shape : (v.shape known).items? = v.items?.map (List.map (shape known)) := by
  cases v with
  | list id items => exact congrArg some (shapeOfItems_eq_map known items)
  | _ => rfl

theorem fields?_shape :
    (v.shape known).fields? = v.fields?.map (List.map fun e => (e.1, e.2.shape known)) := by
  cases v with
  | record id fields => exact congrArg some (shapeOfFields_eq_map known fields)
  | inst cls id fields => exact congrArg some (shapeOfFields_eq_map known fields)
  | _ => rfl

theorem record?_shape :
    (v.shape known).record? = v.record?.map (List.map fun e => (e.1, e.2.shape known)) := by
  cases v with
  | record id fields => exact congrArg some (shapeOfFields_eq_map known fields)
  | _ => rfl

variable {known v} (h : v.Declared known)

include h

theorem describe_shape : (v.shape known).describe = v.describe := by
  cases v with
  | inst cls id fields => exact congrArg Class.name (h cls (List.mem_cons_self ..))
  | _ => rfl

theorem isInstanceOf_shape (cls : Class) : (v.shape known).isInstanceOf cls = v.isInstanceOf cls := by
  cases v with
  | inst own id fields =>
    exact congrArg (Class.isSubclassOf · cls) (h own (List.mem_cons_self ..))
  | _ => rfl

end Seen

end RuntimeContracts.Value
