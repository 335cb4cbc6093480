import RuntimeContracts.Value.Equality

/-!
Exact equality is equality of content: of what is left of a value when its allocations are forgotten
and classes and functions are reduced to their identities. It is therefore an equivalence on values
and on argument lists, with NaN equal to itself, since floats are compared by their patterns.
-/
namespace RuntimeContracts.Value

mutual

def content : Value → Value
  | undefined => undefined
  | null => null
  | bool b => bool b
  | number n => number n
  | string s => string s
  | list _ items => list 0 (contentOfItems items)
  | record _ fields => record 0 (contentOfFields fields)
  | inst c _ fields => inst (.root c.id "") 0 (contentOfFields fields)
  | function f => function ⟨"", [], f.body⟩

def contentOfItems : List Value → List Value
  | [] => []
  | v :: vs => content v :: contentOfItems vs

def contentOfFields : List (String × Value) → List (String × Value)
  | [] => []
  | (k, v) :: es => (k, content v) :: contentOfFields es

end

mutual

theorem beq_iff_content : ∀ a b : Value, beq a b = true ↔ content a = content b
  | undefined, b | null, b | bool _, b | number _, b | string _, b => by
    cases b <;> simp [beq, content]
  | list _ xs, b => by
    cases b <;> simp [beq, content, beqItems_iff_content xs]
  | record _ xs, b => by
    cases b <;> simp [beq, content, beqFields_iff_content xs]
  | inst c _ xs, b => by
    cases b <;> simp [beq, content, beqFields_iff_content xs, BEq.beq]
  | function f, b => by
    cases b <;> simp [beq, content, BEq.beq]

theorem beqItems_iff_content :
    ∀ xs ys : List Value, beqItems xs ys = true ↔ contentOfItems xs = contentOfItems ys
  | [], ys => by cases ys <;> simp [beqItems, contentOfItems]
  | x :: xs, ys => by
    cases ys <;>
      simp [beqItems, contentOfItems, beq_iff_content x, beqItems_iff_content xs]

theorem beqFields_iff_content :
    ∀ xs ys : List (String × Value), beqFields xs ys = true ↔ contentOfFields xs = contentOfFields ys
  | [], ys => by cases ys <;> simp [beqFields, contentOfFields]
  | (k, x) :: xs, ys => by
    cases ys <;>
      simp [beqFields, contentOfFields, beq_iff_content x, beqFields_iff_content xs, and_assoc]

end

theorem beq_refl (a : Value) : beq a a = true := (beq_iff_content a a).mpr rfl

theorem beq_symm {a b : Value} (h : beq a b = true) : beq b a = true :=
  (beq_iff_content b a).mpr ((beq_iff_content a b).mp h).symm

theorem beq_trans {a b c : Value} (hab : beq a b = true) (hbc : beq b c = true) :
    beq a c = true :=
  (beq_iff_content a c).mpr
    (((beq_iff_content a b).mp hab).trans ((beq_iff_content b c).mp hbc))

theorem beqItems_refl (xs : List Value) : beqItems xs xs = true :=
  (beqItems_iff_content xs xs).mpr rfl

theorem beqFields_refl (xs : List (String × Value)) : beqFields xs xs = true :=
  (beqFields_iff_content xs xs).mpr rfl

theorem beqItems_symm {xs ys : List Value} (h : beqItems xs ys = true) : beqItems ys xs = true :=
  (beqItems_iff_content ys xs).mpr ((beqItems_iff_content xs ys).mp h).symm

theorem beqItems_comm (xs ys : List Value) : beqItems xs ys = beqItems ys xs :=
  Bool.eq_iff_iff.mpr ⟨beqItems_symm, beqItems_symm⟩

theorem beqItems_trans {xs ys zs : List Value} (hxy : beqItems xs ys = true)
    (hyz : beqItems ys zs = true) : beqItems xs zs = true :=
  (beqItems_iff_content xs zs).mpr
    (((beqItems_iff_content xs ys).mp hxy).trans ((beqItems_iff_content ys zs).mp hyz))

/-- Equal argument lists are equal to the same argument lists. -/
theorem beqItems_congr {xs ys : List Value} (h : beqItems xs ys = true) (zs : List Value) :
    beqItems zs xs = beqItems zs ys :=
  Bool.eq_iff_iff.mpr
    ⟨fun hzs => beqItems_trans hzs h, fun hzs => beqItems_trans hzs (beqItems_symm h)⟩

end RuntimeContracts.Value
