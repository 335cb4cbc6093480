import RuntimeContracts.Machine.Run

/-!
An engine is code together with a world. Definitions extend the code between runs: functions made from
programs, functions that validate or memoize others, and memoizers. Runs change the world and leave the
code alone.
-/
namespace RuntimeContracts

structure Engine (σ : Type) where
  code : Code σ
  world : World σ

/-- Changes of an engine that always have a result. -/
abbrev Setup (σ : Type) := StateM (Engine σ)

namespace Engine

variable {σ α : Type}

def start (s : σ) : Engine σ := ⟨⟨#[], #[]⟩, World.start s⟩

/-- How many calls may be in progress inside of each other. -/
def depthLimit : Nat := 1000000

/-- Run a program to its end. -/
def run? (p : Program σ α) : StateT (Engine σ) Option α := fun e =>
  (Machine.runProgram e.code (Machine.call e.code depthLimit) p e.world).map fun (a, world) =>
    (a, { e with world })

/-- Define a function with a body of its own. -/
def define (name : String) (params : List String) (body : Body σ) : Setup σ Callable := fun e =>
  (⟨name, params, e.code.bodies.size⟩,
    { e with code := { e.code with bodies := e.code.bodies.push body } })

/-- Define a class, of its own identity. -/
def defineClass (name : String) (parent : Option Class) : Setup σ Class := fun e =>
  let id := e.world.nextIdentity
  (match parent with
    | none => .root id name
    | some p => .extending id name p,
    { e with world := { e.world with nextIdentity := id + 1 } })

/-- The function that makes validated calls, under the name and parameters of the inner one. -/
def defineValidated (v : Validated) : Setup σ Callable :=
  define v.inner.name v.inner.params (.validated v)

/-- A memoizer with an empty cache, and its number. -/
def defineMemoizer (m : Memoizer) : Setup σ Nat := fun e =>
  (e.code.memoizers.size,
    { e with code := { e.code with memoizers := e.code.memoizers.push m } })

/-- The function that makes calls through a memoizer, under the name and parameters of the memoized
one. All such functions of one memoizer share its cache. -/
def defineMemoized (i : Nat) (m : Memoizer) : Setup σ Callable :=
  define m.function.name m.function.params (.memoized i)

/-- A function that enforces a signature. -/
def wrapWithValidation (f : Callable) (s : Signature) : Setup σ Callable :=
  defineValidated ⟨f, s, .enforce⟩

/-- A function with a cache of its own. -/
def memoize (f : Callable) (policy : CachePolicy) : Setup σ Callable := do
  let i ← defineMemoizer ⟨f, policy⟩
  defineMemoized i ⟨f, policy⟩

end Engine

namespace Validated

/-- The detailed text of a validated function. -/
def inspect (v : Validated) : String :=
  "ValidatedFunction \x7b inner: " ++ v.inner.inspect ++ ", signature: " ++ v.signature.inspect ++
    ", mode: " ++ v.mode.inspect ++ " \x7d"

end Validated

namespace Memoizer

/-- The detailed text of a memoizer whose cache has the given size. -/
def inspect (m : Memoizer) (size : Nat) : String :=
  "Memoizer \x7b func: " ++ m.function.inspect ++ ", policy: " ++ m.policy.inspect ++
    ", cache_entries: " ++ toString size ++ " \x7d"

end Memoizer

end RuntimeContracts
