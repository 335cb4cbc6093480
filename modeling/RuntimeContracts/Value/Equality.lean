import RuntimeContracts.Value.Basic

/-!
Three notions of sameness. Exact equality `==` compares representations all the way down: floats by
bit pattern, classes and function bodies by identity, and everything else by content. Numeric
agreement is the same, but for numbers, which it compares by value. Strict sameness compares numbers
by value too, and lists, records and instances by identity.

Exact equality has a second form that stops early at a shared allocation.
-/
namespace RuntimeContracts.Value

mutual

/-- Exact equality. -/
def beq : Value → Value → Bool
  | undefined, undefined => true
  | null, null => true
  | bool a, bool b => a == b
  | number a, number b => a == b
  | string a, string b => a == b
  | list _ xs, list _ ys => beqItems xs ys
  | record _ xs, record _ ys => beqFields xs ys
  | inst c _ xs, inst d _ ys => c == d && beqFields xs ys
  | function f, function g => f == g
  | _, _ => false

def beqItems : List Value → List Value → Bool
  | [], [] => true
  | x :: xs, y :: ys => beq x y && beqItems xs ys
  | _, _ => false

def beqFields : List (String × Value) → List (String × Value) → Bool
  | [], [] => true
  | (k, x) :: xs, (l, y) :: ys => k == l && beq x y && beqFields xs ys
  | _, _ => false

end

instance : BEq Value := ⟨beq⟩

mutual

/-- Exact equality that takes two values of one allocation for equal without looking inside. -/
def beqShared : Value → Value → Bool
  | undefined, undefined => true
  | null, null => true
  | bool a, bool b => a == b
  | number a, number b => a == b
  | string a, string b => a == b
  | list i xs, list j ys => i == j || beqSharedItems xs ys
  | record i xs, record j ys => i == j || beqSharedFields xs ys
  | inst c i xs, inst d j ys => c == d && (i == j || beqSharedFields xs ys)
  | function f, function g => f == g
  | _, _ => false

def beqSharedItems : List Value → List Value → Bool
  | [], [] => true
  | x :: xs, y :: ys => beqShared x y && beqSharedItems xs ys
  | _, _ => false

def beqSharedFields : List (String × Value) → List (String × Value) → Bool
  | [], [] => true
  | (k, x) :: xs, (l, y) :: ys => k == l && beqShared x y && beqSharedFields xs ys
  | _, _ => false

end

mutual

/-- Numeric agreement: `1` agrees with `1.0`, and a NaN with nothing. -/
def agrees : Value → Value → Bool
  | undefined, undefined => true
  | null, null => true
  | bool a, bool b => a == b
  | number a, number b => a.numericEq b
  | string a, string b => a == b
  | list _ xs, list _ ys => agreesItems xs ys
  | record _ xs, record _ ys => agreesFields xs ys
  | inst c _ xs, inst d _ ys => c == d && agreesFields xs ys
  | function f, function g => f == g
  | _, _ => false

def agreesItems : List Value → List Value → Bool
  | [], [] => true
  | x :: xs, y :: ys => agrees x y && agreesItems xs ys
  | _, _ => false

def agreesFields : List (String × Value) → List (String × Value) → Bool
  | [], [] => true
  | (k, x) :: xs, (l, y) :: ys => k == l && agrees x y && agreesFields xs ys
  | _, _ => false

end

/-- Strict sameness. An instance is the same only under the same class. -/
def same : Value → Value → Bool
  | undefined, undefined => true
  | null, null => true
  | bool a, bool b => a == b
  | number a, number b => a.numericEq b
  | string a, string b => a == b
  | list i _, list j _ => i == j
  | record i _, record j _ => i == j
  | inst c i _, inst d j _ => c == d && i == j
  | function f, function g => f == g
  | _, _ => false

end RuntimeContracts.Value
