import RuntimeContracts.Engine

/-!
A contract gathers what is to hold around one function: specs, a cache policy and a mode. Building it
puts the cache next to the function and the checks around both, so that results from the cache are
checked too; without specs there are no checks, and without a policy there is no cache.
-/
namespace RuntimeContracts

structure Contract where
  function : Callable
  signature : Signature
  memo : Option CachePolicy
  mode : Mode

namespace Contract

variable {σ : Type}

/-- The mode of a setting; a setting that names none is reported. -/
def modeOfSetting (setting : Option String) : Program σ Mode :=
  match Mode.ofSetting setting with
  | (mode, none) => pure mode
  | (mode, some e) => do
    Program.complain e
    pure mode

/-- The empty contract of a function, in the mode of a setting. -/
def new (f : Callable) (setting : Option String) : Program σ Contract := do
  return ⟨f, .empty, none, ← modeOfSetting setting⟩

def contribute (c : Contract) (k : Contribution) : Contract :=
  { c with signature := c.signature.add k }

def param (c : Contract) (position : UInt64) (s : Spec) : Contract := c.contribute (.param position s)

def returns (c : Contract) (s : Spec) : Contract := c.contribute (.result s)

def memoizeWith (c : Contract) (policy : CachePolicy) : Contract := { c with memo := some policy }

def memoize (c : Contract) : Contract := c.memoizeWith .unbounded

def withMode (c : Contract) (mode : Mode) : Contract := { c with mode }

def build (c : Contract) : Setup σ Callable := do
  let f ← match c.memo with
    | some policy => Engine.memoize c.function policy
    | none => pure c.function
  if c.signature.isEmpty then pure f
  else Engine.defineValidated ⟨f, c.signature, c.mode⟩

/-- The detailed text of a contract. -/
def inspect (c : Contract) : String :=
  "ContractBuilder \x7b func: " ++ c.function.inspect ++ ", signature: " ++ c.signature.inspect ++
    ", memo: " ++
    (match c.memo with
      | some policy => "Some(" ++ policy.inspect ++ ")"
      | none => "None") ++
    ", mode: " ++ c.mode.inspect ++ " \x7d"

end Contract

end RuntimeContracts
