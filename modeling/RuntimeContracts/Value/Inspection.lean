import RuntimeContracts.Value.Rendering

/-!
The detailed text of a value. It names the variant of every part, quotes field names and shows
floats as floats, so that it determines plain data. Functions show their name and parameters only.
-/
namespace RuntimeContracts.Value

mutual

/-- The detailed text of a value, followed by `rest`. -/
def inspectOnto : Value → List Char → List Char
  | undefined, rest => "Undefined".toList ++ rest
  | null, rest => "Null".toList ++ rest
  | bool b, rest => "Bool(".toList ++ boolText b (')' :: rest)
  | number (.int n), rest => "Int(".toList ++ Decimal.ofInt n.toInt ++ ')' :: rest
  | number (.float x), rest => "Float(".toList ++ x.text .detailed ++ ')' :: rest
  | string s, rest => "Str(".toList ++ Text.Quoted.quote s (')' :: rest)
  | list _ items, rest => "List([".toList ++ inspectItems items (']' :: ')' :: rest)
  | record _ fields, rest => "Map(\x7b".toList ++ inspectFields fields ('\x7d' :: ')' :: rest)
  | inst cls _ fields, rest =>
    "Instance(InstanceValue \x7b class: ".toList ++ cls.inspect.toList ++ ", fields: \x7b".toList ++
      inspectFields fields ("\x7d \x7d)".toList ++ rest)
  | function f, rest => "Function(".toList ++ f.inspectOnto (')' :: rest)

def inspectItems : List Value → List Char → List Char
  | [], rest => rest
  | v :: vs, rest =>
    inspectOnto v (match vs with
      | [] => rest
      | _ :: _ => ',' :: ' ' :: inspectItems vs rest)

def inspectFields : List (String × Value) → List Char → List Char
  | [], rest => rest
  | (k, v) :: es, rest =>
    Text.Quoted.quote k (':' :: ' ' :: inspectOnto v (match es with
      | [] => rest
      | _ :: _ => ',' :: ' ' :: inspectFields es rest))

end

def inspect (v : Value) : String := String.ofList (inspectOnto v [])

/-- The detailed text of an argument list as the key of a cached result. -/
def inspectKey (args : List Value) : String :=
  String.ofList ("MemoKey([".toList ++ inspectItems args (']' :: ')' :: []))

end RuntimeContracts.Value
