import RuntimeContracts.Number.Decimal
import RuntimeContracts.Value.Basic

/-!
The plain text of a value, for readers: bare numbers, quoted strings, braces around the fields of
records and instances, and the names of classes and functions. It is written in front of the text
that follows it.
-/
namespace RuntimeContracts.Value

def boolText (b : Bool) (rest : List Char) : List Char :=
  (if b then "true" else "false").toList ++ rest

mutual

/-- The plain text of a value, followed by `rest`. -/
def renderOnto : Value → List Char → List Char
  | undefined, rest => "undefined".toList ++ rest
  | null, rest => "null".toList ++ rest
  | bool b, rest => boolText b rest
  | number n, rest => n.text .plain ++ rest
  | string s, rest => Text.Quoted.quote s rest
  | list _ items, rest => '[' :: renderItems items (']' :: rest)
  | record _ fields, rest => '\x7b' :: renderFields fields ('\x7d' :: rest)
  | inst cls _ fields, rest =>
    cls.name.toList ++ ' ' :: '\x7b' :: renderFields fields ('\x7d' :: rest)
  | function f, rest => "<function ".toList ++ f.name.toList ++ '>' :: rest

def renderItems : List Value → List Char → List Char
  | [], rest => rest
  | v :: vs, rest =>
    renderOnto v (match vs with
      | [] => rest
      | _ :: _ => ',' :: ' ' :: renderItems vs rest)

def renderFields : List (String × Value) → List Char → List Char
  | [], rest => rest
  | (k, v) :: es, rest =>
    k.toList ++ ':' :: ' ' :: renderOnto v (match es with
      | [] => rest
      | _ :: _ => ',' :: ' ' :: renderFields es rest)

end

def render (v : Value) : String := String.ofList (renderOnto v [])

end RuntimeContracts.Value
