import Mathlib.Data.List.Forall2
import RuntimeContracts.Proofs.Number.Agreement
import RuntimeContracts.Proofs.Value.Shape

/-!
A value as a skeleton with numbers in it. Numeric agreement is that the skeletons are the same and the
numbers agree place by place, so what holds of numeric agreement of numbers is lifted to values through
lists of numbers, and not through the structure of values again.
-/
namespace RuntimeContracts.Value

mutual

def numbers : Value → List Number
  | undefined => []
  | null => []
  | bool _ => []
  | number n => [n]
  | string _ => []
  | list _ items => numbersOfItems items
  | record _ fields => numbersOfFields fields
  | inst _ _ fields => numbersOfFields fields
  | function _ => []

def numbersOfItems : List Value → List Number
  | [] => []
  | v :: vs => numbers v ++ numbersOfItems vs

def numbersOfFields : List (String × Value) → List Number
  | [] => []
  | (_, v) :: es => numbers v ++ numbersOfFields es

end

mutual

def skeleton : Value → Value
  | undefined => undefined
  | null => null
  | bool b => bool b
  | number _ => int 0
  | string s => string s
  | list _ items => list 0 (skeletonOfItems items)
  | record _ fields => record 0 (skeletonOfFields fields)
  | inst c _ fields => inst (.root c.id "") 0 (skeletonOfFields fields)
  | function f => function ⟨"", [], f.body⟩

def skeletonOfItems : List Value → List Value
  | [] => []
  | v :: vs => skeleton v :: skeletonOfItems vs

def skeletonOfFields : List (String × Value) → List (String × Value)
  | [] => []
  | (k, v) :: es => (k, skeleton v) :: skeletonOfFields es

end

def NaNFree (v : Value) : Prop := ∀ n ∈ v.numbers, n.isNaN = false

abbrev NumbersAgree : List Number → List Number → Prop :=
  List.Forall₂ fun m n => m.numericEq n = true

theorem numbersAgree_cons_iff {m n : Number} {ms ns : List Number} :
    NumbersAgree (m :: ms) (n :: ns) ↔ m.numericEq n = true ∧ NumbersAgree ms ns :=
  List.forall₂_cons

theorem forall₂_append_iff {α β : Type} {r : α → β → Prop} {as cs : List α} {bs ds : List β}
    (h : as.length = bs.length) :
    List.Forall₂ r (as ++ cs) (bs ++ ds) ↔ List.Forall₂ r as bs ∧ List.Forall₂ r cs ds := by
  induction as generalizing bs with
  | nil =>
    obtain rfl := List.length_eq_zero_iff.mp h.symm
    simp
  | cons a as ih =>
    cases bs with
    | nil => cases h
    | cons b bs => simp [ih (Nat.succ.inj h), and_assoc]

section Skeleton

mutual

theorem length_numbers_skeleton : ∀ v : Value, v.skeleton.numbers.length = v.numbers.length
  | undefined | null | bool _ | number _ | string _ | function _ => rfl
  | list _ items => by simp only [skeleton, numbers, length_numbers_skeletonOfItems items]
  | record _ fields => by simp only [skeleton, numbers, length_numbers_skeletonOfFields fields]
  | inst _ _ fields => by simp only [skeleton, numbers, length_numbers_skeletonOfFields fields]

theorem length_numbers_skeletonOfItems :
    ∀ vs : List Value, (numbersOfItems (skeletonOfItems vs)).length = (numbersOfItems vs).length
  | [] => rfl
  | v :: vs => by
    simp only [skeletonOfItems, numbersOfItems, List.length_append, length_numbers_skeleton v,
      length_numbers_skeletonOfItems vs]

theorem length_numbers_skeletonOfFields : ∀ es : List (String × Value),
    (numbersOfFields (skeletonOfFields es)).length = (numbersOfFields es).length
  | [] => rfl
  | (k, v) :: es => by
    simp only [skeletonOfFields, numbersOfFields, List.length_append, length_numbers_skeleton v,
      length_numbers_skeletonOfFields es]

end

/-- A skeleton says how many numbers there are. -/
theorem length_numbers_eq {a b : Value} (h : a.skeleton = b.skeleton) :
    a.numbers.length = b.numbers.length := by
  rw [← length_numbers_skeleton a, h, length_numbers_skeleton b]

mutual

theorem skeleton_content : ∀ v : Value, v.content.skeleton = v.skeleton
  | undefined | null | bool _ | number _ | string _ | function _ => rfl
  | list _ items => by simp only [content, skeleton, skeletonOfItems_content items]
  | record _ fields => by simp only [content, skeleton, skeletonOfFields_content fields]
  | inst c _ fields => by
    simp only [content, skeleton, skeletonOfFields_content fields]
    rfl

theorem skeletonOfItems_content :
    ∀ vs : List Value, skeletonOfItems (contentOfItems vs) = skeletonOfItems vs
  | [] => rfl
  | v :: vs => by simp only [contentOfItems, skeletonOfItems, skeleton_content v, skeletonOfItems_content vs]

theorem skeletonOfFields_content :
    ∀ es : List (String × Value), skeletonOfFields (contentOfFields es) = skeletonOfFields es
  | [] => rfl
  | (k, v) :: es => by
    simp only [contentOfFields, skeletonOfFields, skeleton_content v, skeletonOfFields_content es]

end

mutual

theorem numbers_content : ∀ v : Value, v.content.numbers = v.numbers
  | undefined | null | bool _ | number _ | string _ | function _ => rfl
  | list _ items => by simp only [content, numbers, numbersOfItems_content items]
  | record _ fields => by simp only [content, numbers, numbersOfFields_content fields]
  | inst _ _ fields => by simp only [content, numbers, numbersOfFields_content fields]

theorem numbersOfItems_content :
    ∀ vs : List Value, numbersOfItems (contentOfItems vs) = numbersOfItems vs
  | [] => rfl
  | v :: vs => by simp only [contentOfItems, numbersOfItems, numbers_content v, numbersOfItems_content vs]

theorem numbersOfFields_content :
    ∀ es : List (String × Value), numbersOfFields (contentOfFields es) = numbersOfFields es
  | [] => rfl
  | (k, v) :: es => by
    simp only [contentOfFields, numbersOfFields, numbers_content v, numbersOfFields_content es]

end

mutual

theorem shape_skeleton (known : Nat → Class) : ∀ v : Value, v.skeleton.shape known = v.shape known
  | undefined | null | bool _ | number _ | string _ | function _ => rfl
  | list _ items => by simp only [skeleton, shape, shapeOfItems_skeleton known items]
  | record _ fields => by simp only [skeleton, shape, shapeOfFields_skeleton known fields]
  | inst c _ fields => by
    simp only [skeleton, shape, shapeOfFields_skeleton known fields]
    rfl

theorem shapeOfItems_skeleton (known : Nat → Class) :
    ∀ vs : List Value, shapeOfItems known (skeletonOfItems vs) = shapeOfItems known vs
  | [] => rfl
  | v :: vs => by
    simp only [skeletonOfItems, shapeOfItems, shape_skeleton known v, shapeOfItems_skeleton known vs]

theorem shapeOfFields_skeleton (known : Nat → Class) : ∀ es : List (String × Value),
    shapeOfFields known (skeletonOfFields es) = shapeOfFields known es
  | [] => rfl
  | (k, v) :: es => by
    simp only [skeletonOfFields, shapeOfFields, shape_skeleton known v, shapeOfFields_skeleton known es]

end

end Skeleton

section Agreement

mutual

/-- Values agree if they differ in numbers only, and these agree place by place. -/
theorem agrees_iff : ∀ a b : Value,
    agrees a b = true ↔ a.skeleton = b.skeleton ∧ NumbersAgree a.numbers b.numbers
  | undefined, b | null, b | bool _, b | number _, b | string _, b => by
    cases b <;> simp [agrees, skeleton, numbers, int]
  | list _ xs, b => by
    cases b <;> simp [agrees, skeleton, numbers, int, agreesItems_iff xs]
  | record _ xs, b => by
    cases b <;> simp [agrees, skeleton, numbers, int, agreesFields_iff xs]
  | inst c _ xs, b => by
    cases b <;> simp [agrees, skeleton, numbers, int, agreesFields_iff xs, BEq.beq, and_assoc]
  | function f, b => by
    cases b <;> simp [agrees, skeleton, numbers, int, BEq.beq]

theorem agreesItems_iff : ∀ xs ys : List Value, agreesItems xs ys = true ↔
    skeletonOfItems xs = skeletonOfItems ys ∧ NumbersAgree (numbersOfItems xs) (numbersOfItems ys)
  | [], ys => by cases ys <;> simp [agreesItems, skeletonOfItems, numbersOfItems]
  | x :: xs, [] => by simp [agreesItems, skeletonOfItems]
  | x :: xs, y :: ys => by
    simp only [agreesItems, Bool.and_eq_true, agrees_iff x y, agreesItems_iff xs ys, skeletonOfItems,
      numbersOfItems, List.cons.injEq]
    constructor
    · rintro ⟨⟨hhead, hnumbers⟩, htail, hnumbers'⟩
      exact ⟨⟨hhead, htail⟩, (forall₂_append_iff (length_numbers_eq hhead)).mpr ⟨hnumbers, hnumbers'⟩⟩
    · rintro ⟨⟨hhead, htail⟩, hall⟩
      obtain ⟨hnumbers, hnumbers'⟩ := (forall₂_append_iff (length_numbers_eq hhead)).mp hall
      exact ⟨⟨hhead, hnumbers⟩, htail, hnumbers'⟩

theorem agreesFields_iff : ∀ xs ys : List (String × Value), agreesFields xs ys = true ↔
    skeletonOfFields xs = skeletonOfFields ys ∧ NumbersAgree (numbersOfFields xs) (numbersOfFields ys)
  | [], ys => by cases ys <;> simp [agreesFields, skeletonOfFields, numbersOfFields]
  | (k, x) :: xs, [] => by simp [agreesFields, skeletonOfFields]
  | (k, x) :: xs, (l, y) :: ys => by
    simp only [agreesFields, Bool.and_eq_true, beq_iff_eq, agrees_iff x y, agreesFields_iff xs ys,
      skeletonOfFields, numbersOfFields, List.cons.injEq, Prod.mk.injEq]
    constructor
    · rintro ⟨⟨hname, hhead, hnumbers⟩, htail, hnumbers'⟩
      exact ⟨⟨⟨hname, hhead⟩, htail⟩,
        (forall₂_append_iff (length_numbers_eq hhead)).mpr ⟨hnumbers, hnumbers'⟩⟩
    · rintro ⟨⟨⟨hname, hhead⟩, htail⟩, hall⟩
      obtain ⟨hnumbers, hnumbers'⟩ := (forall₂_append_iff (length_numbers_eq hhead)).mp hall
      exact ⟨⟨hname, hhead, hnumbers⟩, htail, hnumbers'⟩

end

end Agreement

end RuntimeContracts.Value
