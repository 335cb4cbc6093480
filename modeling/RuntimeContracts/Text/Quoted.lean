import RuntimeContracts.Text.Unprintable
import RuntimeContracts.Text.GraphemeExtend

/-!
Quoted text. Backslash, double quote, tab, newline, carriage return and NUL have an escape of two
characters; code points without a visible form, and those that would attach to the character before
them, are written as their hexadecimal number; every other character stands for itself.
-/
namespace RuntimeContracts.Text.Quoted

def isHidden (c : Char) : Bool :=
  Unprintable.ranges.contains c.toNat || GraphemeExtend.ranges.contains c.toNat

def escape (c : Char) : List Char :=
  if c = '\x00' then ['\\', '0']
  else if c = '\t' then ['\\', 't']
  else if c = '\r' then ['\\', 'r']
  else if c = '\n' then ['\\', 'n']
  else if c = '"' then ['\\', '"']
  else if c = '\\' then ['\\', '\\']
  else if isHidden c then '\\' :: 'u' :: '\x7b' :: (Nat.toDigits 16 c.toNat ++ ['\x7d'])
  else [c]

/-- The escaped characters, followed by `rest`. -/
def escapeAll : List Char → List Char → List Char
  | [], rest => rest
  | c :: cs, rest => escape c ++ escapeAll cs rest

/-- The text between double quotes, followed by `rest`. -/
def quote (s : String) (rest : List Char) : List Char :=
  '"' :: escapeAll s.toList ('"' :: rest)

/-- Quoted texts, separated by commas and followed by `rest`. -/
def quoteAll : List String → List Char → List Char
  | [], rest => rest
  | s :: ss, rest =>
    quote s (match ss with
      | [] => rest
      | _ :: _ => ',' :: ' ' :: quoteAll ss rest)

end RuntimeContracts.Text.Quoted
