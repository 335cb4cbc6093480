import RuntimeContracts.Text.Quoted

/-!
Callables: a body together with the name and the parameter names that diagnostics use. Bodies are
known by identity only, and two callables are equal when they share one body.
-/
namespace RuntimeContracts

structure Callable where
  name : String
  params : List String
  body : Nat

namespace Callable

instance : BEq Callable := ⟨fun f g => f.body == g.body⟩

def paramName? (f : Callable) (position : UInt64) : Option String := f.params[position.toNat]?

/-- The same body under other parameter names. -/
def withParams (f : Callable) (params : List String) : Callable := { f with params }

/-- The detailed text of a callable, which leaves its body out. -/
def inspectOnto (f : Callable) (rest : List Char) : List Char :=
  "FunctionValue \x7b name: ".toList ++ Text.Quoted.quote f.name
    (", params: [".toList ++ Text.Quoted.quoteAll f.params ("], .. \x7d".toList ++ rest))

def inspect (f : Callable) : String := String.ofList (f.inspectOnto [])

end Callable

end RuntimeContracts
