import RuntimeContracts.Callable
import RuntimeContracts.Class
import RuntimeContracts.Kind

/-!
Specs describe which values are acceptable. Two specs are equal when they are built alike, where
predicates count as equal when they share a body and classes by identity.
-/
namespace RuntimeContracts

/-- The kinds a spec can name. Null, undefined and instances have no native kind. -/
inductive NativeKind where
  | number
  | string
  | bool
  | function
  | list
  | record
deriving DecidableEq

namespace NativeKind

def kind : NativeKind → Kind
  | number => .number
  | string => .string
  | bool => .bool
  | function => .function
  | list => .list
  | record => .record

def admits (native : NativeKind) (k : Kind) : Bool := native.kind = k

def name (native : NativeKind) : String := native.kind.name

end NativeKind

inductive Spec where
  /-- Values of one native kind. -/
  | native (kind : NativeKind)
  /-- Values that the callable returns unchanged. -/
  | predicate (f : Callable)
  /-- Instances of the class or of a subclass. -/
  | instanceOf (cls : Class)
  /-- Records and instances that have every field listed, each of its own spec. -/
  | duck (fields : List (String × Spec))
  /-- Values of at least one member spec. -/
  | anyOf (members : List Spec)
  | listOf (element : Spec)
  /-- Records whose fields all have one spec. -/
  | recordOf (field : Spec)
  /-- Values of the inner spec, and an argument left out. -/
  | optional (inner : Spec)
  /-- All values. -/
  | any

namespace Spec

mutual

def beq : Spec → Spec → Bool
  | native a, native b => a == b
  | predicate f, predicate g => f == g
  | instanceOf c, instanceOf d => c == d
  | duck xs, duck ys => beqFields xs ys
  | anyOf xs, anyOf ys => beqMembers xs ys
  | listOf a, listOf b => beq a b
  | recordOf a, recordOf b => beq a b
  | optional a, optional b => beq a b
  | any, any => true
  | _, _ => false

def beqMembers : List Spec → List Spec → Bool
  | [], [] => true
  | x :: xs, y :: ys => beq x y && beqMembers xs ys
  | _, _ => false

def beqFields : List (String × Spec) → List (String × Spec) → Bool
  | [], [] => true
  | (k, x) :: xs, (l, y) :: ys => k == l && beq x y && beqFields xs ys
  | _, _ => false

end

instance : BEq Spec := ⟨beq⟩

mutual

/-- Whether an argument that was left out is acceptable: only optional specs say so, directly or as
alternatives. -/
def acceptsAbsent : Spec → Bool
  | optional _ => true
  | anyOf members => anyAcceptsAbsent members
  | _ => false

def anyAcceptsAbsent : List Spec → Bool
  | [] => false
  | s :: rest => acceptsAbsent s || anyAcceptsAbsent rest

end

end Spec

end RuntimeContracts
