/-!
How many results a cache may keep.
-/
namespace RuntimeContracts

inductive CachePolicy where
  | unbounded
  /-- At most `capacity` results, of which the oldest makes room for a new one. -/
  | bounded (capacity : Nat) (positive : 0 < capacity)
deriving DecidableEq

namespace CachePolicy

instance : Inhabited CachePolicy := ⟨unbounded⟩

def capacity? : CachePolicy → Option Nat
  | unbounded => none
  | bounded capacity _ => some capacity

def inspect : CachePolicy → String
  | unbounded => "Unbounded"
  | bounded capacity _ => "Bounded \x7b capacity: " ++ toString capacity ++ " \x7d"

end CachePolicy

end RuntimeContracts
