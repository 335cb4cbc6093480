import RuntimeContracts.Ascending
import RuntimeContracts.Mismatch
import RuntimeContracts.Spec.Inspection
import RuntimeContracts.Spec.Matching
import RuntimeContracts.Spec.Rendering

/-!
Signatures collect the specs of a callable: for every position any number of specs, all of which must
hold, and any number for the result. They are built from contributions, one at a time, and a
contribution never takes an earlier one back. Positions are kept sparsely, so a high position costs
no more than a low one.
-/
namespace RuntimeContracts

inductive Contribution where
  | param (position : UInt64) (spec : Spec)
  | result (spec : Spec)

structure Signature where
  params : List (UInt64 × List Spec)
  returns : List Spec
  ascends : Ascending.Ascends params

namespace Contribution

def inspectOnto : Contribution → List Char → List Char
  | param position spec, rest =>
    "Param \x7b position: ".toList ++ (toString position.toNat).toList ++ ", spec: ".toList ++
      spec.inspectOnto (' ' :: '\x7d' :: rest)
  | result spec, rest => "Return \x7b spec: ".toList ++ spec.inspectOnto (' ' :: '\x7d' :: rest)

def inspect (c : Contribution) : String := String.ofList (c.inspectOnto [])

end Contribution

namespace Signature

def empty : Signature := ⟨[], [], List.Pairwise.nil⟩

instance : Inhabited Signature := ⟨empty⟩

def beqSlots : List (UInt64 × List Spec) → List (UInt64 × List Spec) → Bool
  | [], [] => true
  | (i, ss) :: xs, (j, ts) :: ys => i == j && Spec.beqMembers ss ts && beqSlots xs ys
  | _, _ => false

instance : BEq Signature :=
  ⟨fun s t => beqSlots s.params t.params && Spec.beqMembers s.returns t.returns⟩

theorem ascends_alter (i : UInt64) (f : Option (List Spec) → List Spec)
    (slots : List (UInt64 × List Spec)) (h : Ascending.Ascends slots) :
    Ascending.Ascends (Ascending.alter i f slots) :=
  Ascending.ascends_alter (fun _ _ _ => UInt64.lt_trans)
    (fun _ _ hab hba => UInt64.le_antisymm (UInt64.not_lt.mp hba) (UInt64.not_lt.mp hab)) i f slots h

/-- The signature with one more contribution, which comes after those of the same position. -/
def add (s : Signature) : Contribution → Signature
  | .param i spec =>
    { s with
      params := Ascending.alter i (fun specs => specs.getD [] ++ [spec]) s.params
      ascends := ascends_alter i _ s.params s.ascends }
  | .result spec => { s with returns := s.returns ++ [spec] }

def extend (s : Signature) (contributions : List Contribution) : Signature :=
  contributions.foldl add s

def ofContributions (contributions : List Contribution) : Signature := empty.extend contributions

/-- The specs of the parameter at a position, in the order of contribution. -/
def paramSpecs (s : Signature) (position : UInt64) : List Spec :=
  (s.params.lookup position).getD []

def isEmpty (s : Signature) : Bool := s.params.isEmpty && s.returns.isEmpty

/-- One more than the highest position with a spec, but at most the highest position there is. -/
def declaredParams (s : Signature) : UInt64 :=
  match s.params.getLast? with
  | none => 0
  | some (i, _) => if i + 1 = 0 then i else i + 1

section Checking

variable {m : Type → Type} [Monad m]

/-- The first spec that rejects the argument. -/
@[specialize]
def firstRejecting (fits : Spec → Option Value → m Bool) (arg : Option Value) :
    List Spec → m (Option Spec)
  | [] => pure none
  | s :: rest => do
    if ← fits s arg then firstRejecting fits arg rest else pure (some s)

/-- What is reported as found for an argument. -/
def describeArg : Option Value → String
  | some v => v.describe
  | none => "missing"

@[specialize]
def checkSlots (fits : Spec → Option Value → m Bool) (f : Callable) (args : List Value) :
    List (UInt64 × List Spec) → m (Option Mismatch)
  | [] => pure none
  | (i, specs) :: rest => do
    let arg := args[i.toNat]?
    match ← firstRejecting fits arg specs with
    | none => checkSlots fits f args rest
    | some s => pure (some ⟨f.name, .parameter i (f.paramName? i), s.render, describeArg arg⟩)

/-- The first mismatch of the arguments, by position and then by order of contribution. -/
@[specialize]
def checkArgs (fits : Spec → Option Value → m Bool) (s : Signature) (f : Callable)
    (args : List Value) : m (Option Mismatch) :=
  checkSlots fits f args s.params

/-- The first mismatch of the result, by order of contribution. -/
@[specialize]
def checkReturn (fits : Spec → Option Value → m Bool) (s : Signature) (f : Callable)
    (result : Value) : m (Option Mismatch) := do
  match ← firstRejecting fits (some result) s.returns with
  | none => pure none
  | some spec => pure (some ⟨f.name, .result, spec.render, result.describe⟩)

end Checking

def inspectSlots : List (UInt64 × List Spec) → List Char → List Char
  | [], rest => rest
  | (i, specs) :: slots, rest =>
    (toString i.toNat).toList ++ ':' :: ' ' :: '[' :: Spec.inspectMembers specs (']' ::
      match slots with
      | [] => rest
      | _ :: _ => ',' :: ' ' :: inspectSlots slots rest)

/-- The detailed text of a signature, followed by `rest`. -/
def inspectOnto (s : Signature) (rest : List Char) : List Char :=
  "Signature \x7b params: \x7b".toList ++ inspectSlots s.params ("\x7d, returns: [".toList ++
    Spec.inspectMembers s.returns ("] \x7d".toList ++ rest))

def inspect (s : Signature) : String := String.ofList (s.inspectOnto [])

end Signature

end RuntimeContracts
