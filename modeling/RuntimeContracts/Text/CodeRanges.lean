/-!
Sets of code points as ascending lists of closed ranges.
-/
namespace RuntimeContracts.Text

abbrev CodeRanges := List (Nat × Nat)

namespace CodeRanges

/-- The search stops at the first range that ends at or after the code point. -/
def contains : CodeRanges → Nat → Bool
  | [], _ => false
  | (first, last) :: rest, c => if c ≤ last then first ≤ c else contains rest c

end CodeRanges

end RuntimeContracts.Text
