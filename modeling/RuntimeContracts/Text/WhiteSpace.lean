import RuntimeContracts.Text.CodeRanges

/-!
The code points with the Unicode property `White_Space`, and the removal of them from both ends of a
text.
-/
namespace RuntimeContracts.Text.WhiteSpace

def ranges : CodeRanges := [
    (0x0009, 0x000D), (0x0020, 0x0020), (0x0085, 0x0085), (0x00A0, 0x00A0), (0x1680, 0x1680),
    (0x2000, 0x200A), (0x2028, 0x2029), (0x202F, 0x202F), (0x205F, 0x205F), (0x3000, 0x3000)]

def isBlank (c : Char) : Bool := ranges.contains c.toNat

/-- Drop the blanks at the end of a text. -/
def trimEnd (cs : List Char) : List Char := (cs.reverse.dropWhile isBlank).reverse

/-- Drop the blanks at both ends of a text. -/
def trim (cs : List Char) : List Char := trimEnd (cs.dropWhile isBlank)

end RuntimeContracts.Text.WhiteSpace
