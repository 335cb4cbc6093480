import RuntimeContracts.Spec.Basic

/-!
The detailed text of a spec, which names the variant of every part.
-/
namespace RuntimeContracts.Spec

def nativeVariant : NativeKind → String
  | .number => "Number"
  | .string => "String"
  | .bool => "Boolean"
  | .function => "Function"
  | .list => "Array"
  | .record => "Object"

mutual

/-- The detailed text of a spec, followed by `rest`. -/
def inspectOnto : Spec → List Char → List Char
  | native k, rest => "Native(".toList ++ (nativeVariant k).toList ++ ')' :: rest
  | predicate f, rest => "Predicate(".toList ++ f.inspectOnto (')' :: rest)
  | instanceOf cls, rest => "Class(".toList ++ cls.inspect.toList ++ ')' :: rest
  | duck fields, rest => "Duck([".toList ++ inspectFields fields (']' :: ')' :: rest)
  | anyOf members, rest => "AnyOf([".toList ++ inspectMembers members (']' :: ')' :: rest)
  | listOf element, rest => "ArrayOf(".toList ++ inspectOnto element (')' :: rest)
  | recordOf field, rest => "ObjectOf(".toList ++ inspectOnto field (')' :: rest)
  | optional inner, rest => "Optional(".toList ++ inspectOnto inner (')' :: rest)
  | any, rest => "Any".toList ++ rest

/-- The detailed texts of several specs, separated by commas and followed by `rest`. -/
def inspectMembers : List Spec → List Char → List Char
  | [], rest => rest
  | s :: ss, rest =>
    inspectOnto s (match ss with
      | [] => rest
      | _ :: _ => ',' :: ' ' :: inspectMembers ss rest)

def inspectFields : List (String × Spec) → List Char → List Char
  | [], rest => rest
  | (name, s) :: es, rest =>
    '(' :: Text.Quoted.quote name (',' :: ' ' :: inspectOnto s (')' :: match es with
      | [] => rest
      | _ :: _ => ',' :: ' ' :: inspectFields es rest))

end

def inspect (s : Spec) : String := String.ofList (inspectOnto s [])

end RuntimeContracts.Spec
