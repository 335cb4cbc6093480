import RuntimeContracts.Spec.Basic

/-!
The plain text of a spec, which diagnostics give as what was expected. It is written in front of the
text that follows it.
-/
namespace RuntimeContracts.Spec

mutual

/-- The plain text of a spec, followed by `rest`. -/
def renderOnto : Spec → List Char → List Char
  | native k, rest => k.name.toList ++ rest
  | predicate f, rest => "<predicate ".toList ++ f.name.toList ++ '>' :: rest
  | instanceOf cls, rest => cls.name.toList ++ rest
  | duck fields, rest => '\x7b' :: renderFields fields ('\x7d' :: rest)
  | anyOf members, rest => "AnyOf(".toList ++ renderMembers members (')' :: rest)
  | listOf element, rest => "ArrayOf(".toList ++ renderOnto element (')' :: rest)
  | recordOf field, rest => "ObjectOf(".toList ++ renderOnto field (')' :: rest)
  | optional inner, rest => "Optional(".toList ++ renderOnto inner (')' :: rest)
  | any, rest => "Any".toList ++ rest

def renderMembers : List Spec → List Char → List Char
  | [], rest => rest
  | s :: ss, rest =>
    renderOnto s (match ss with
      | [] => rest
      | _ :: _ => ',' :: ' ' :: renderMembers ss rest)

def renderFields : List (String × Spec) → List Char → List Char
  | [], rest => rest
  | (name, s) :: es, rest =>
    name.toList ++ ':' :: ' ' :: renderOnto s (match es with
      | [] => rest
      | _ :: _ => ',' :: ' ' :: renderFields es rest)

end

def render (s : Spec) : String := String.ofList (renderOnto s [])

end RuntimeContracts.Spec
