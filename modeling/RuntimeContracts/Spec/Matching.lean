import RuntimeContracts.Spec.Basic
import RuntimeContracts.Value.Basic

/-!
Matching of values against specs. Whether a value passes a predicate is asked of the caller's monad,
so the order and the number of the questions are part of the definition: parts are taken from left to
right and only until the answer is settled. The identity monad gives matching with pure predicates.
-/
namespace RuntimeContracts.Spec

variable {m : Type → Type} [Monad m]

mutual

/-- Whether a present value matches. An optional spec is its inner spec here. -/
@[specialize]
def matchesM (ask : Callable → Value → m Bool) : Spec → Value → m Bool
  | native k, v => pure (k.admits v.kind)
  | predicate f, v => ask f v
  | instanceOf cls, v => pure (v.isInstanceOf cls)
  | duck wanted, v =>
    match v.fields? with
    | some fields => matchesFieldsM ask wanted fields
    | none => pure false
  | anyOf members, v => matchesAnyM ask members v
  | listOf element, v =>
    match v.items? with
    | some items => items.allM fun item => matchesM ask element item
    | none => pure false
  | recordOf field, v =>
    match v.record? with
    | some fields => fields.allM fun e => matchesM ask field e.2
    | none => pure false
  | optional inner, v => matchesM ask inner v
  | any, _ => pure true

/-- Whether every wanted field is present and matches, in the order in which they are wanted. -/
@[specialize]
def matchesFieldsM (ask : Callable → Value → m Bool) :
    List (String × Spec) → List (String × Value) → m Bool
  | [], _ => pure true
  | (name, s) :: rest, fields =>
    match fields.lookup name with
    | some v => do
      if ← matchesM ask s v then matchesFieldsM ask rest fields else pure false
    | none => pure false

@[specialize]
def matchesAnyM (ask : Callable → Value → m Bool) : List Spec → Value → m Bool
  | [], _ => pure false
  | s :: rest, v => do
    if ← matchesM ask s v then pure true else matchesAnyM ask rest v

end

/-- Whether an argument is acceptable, where `none` is an argument that was left out. -/
@[specialize]
def fitsM (ask : Callable → Value → m Bool) (s : Spec) : Option Value → m Bool
  | some v => matchesM ask s v
  | none => pure s.acceptsAbsent

/-- Matching with predicates that answer by their argument alone. -/
def matchesValue (ask : Callable → Value → Bool) (s : Spec) (v : Value) : Bool :=
  Id.run (s.matchesM (fun f w => pure (ask f w)) v)

/-- Acceptance of an argument with predicates that answer by their argument alone. -/
def fits (ask : Callable → Value → Bool) (s : Spec) (arg : Option Value) : Bool :=
  Id.run (s.fitsM (fun f w => pure (ask f w)) arg)

end RuntimeContracts.Spec
