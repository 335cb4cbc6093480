/-!
Classes form a forest under single inheritance. A class is its identity: two definitions of one name
are two classes, and a class is a subclass of those it reaches by steps to the parent.
-/
namespace RuntimeContracts

inductive Class where
  | root (id : Nat) (name : String)
  | extending (id : Nat) (name : String) (parent : Class)

namespace Class

def id : Class → Nat
  | root id _ => id
  | extending id _ _ => id

def name : Class → String
  | root _ name => name
  | extending _ name _ => name

def parent? : Class → Option Class
  | root _ _ => none
  | extending _ _ parent => some parent

instance : BEq Class := ⟨fun c d => c.id == d.id⟩

def isSubclassOf (c ancestor : Class) : Bool :=
  c == ancestor ||
    match c with
    | root _ _ => false
    | extending _ _ parent => parent.isSubclassOf ancestor

/-- A class is shown with its parent, so that classes of one name can be told apart. -/
def inspect (c : Class) : String :=
  match c.parent? with
  | none => "class " ++ c.name
  | some p => "class " ++ c.name ++ " extends " ++ p.name

end Class

end RuntimeContracts
