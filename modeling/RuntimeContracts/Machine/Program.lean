import RuntimeContracts.Machine.Journal
import RuntimeContracts.Signature

/-!
Programs: what the body of a function may do. A program computes and makes requests: to read and
replace a state of its own, for a new identity, to call functions, to have arguments judged and to
use memoizers directly. A request carries the rest of the program as a function of the answer.
-/
namespace RuntimeContracts

/-- A function whose calls are checked against a signature. -/
structure Validated where
  inner : Callable
  signature : Signature
  mode : Mode

/-- The requests of a program with client state `σ`. Memoizers are named by number. -/
inductive Request (σ : Type) where
  | read
  | write (s : σ)
  /-- An identity that nothing else has. -/
  | fresh
  | call (f : Callable) (args : List Value)
  /-- Whether an argument is acceptable, where `none` is an argument left out. -/
  | fits (s : Spec) (arg : Option Value)
  | callValidated (v : Validated) (args : List Value)
  | callMemoized (memoizer : Nat) (args : List Value)
  | lookup (memoizer : Nat) (args : List Value)
  | store (memoizer : Nat) (args : List Value) (v : Value)
  | clear (memoizer : Nat)
  | size (memoizer : Nat)
  /-- Report a setting that names no mode. -/
  | complain (e : UnknownMode)

/-- The type of the answer to a request. -/
def Request.Answer {σ : Type} : Request σ → Type
  | read => σ
  | write _ => Unit
  | fresh => Nat
  | call _ _ => Outcome
  | fits _ _ => Bool
  | callValidated _ _ => Outcome
  | callMemoized _ _ => Outcome
  | lookup _ _ => Option Value
  | store _ _ _ => Unit
  | clear _ => Unit
  | size _ => Nat
  | complain _ => Unit

inductive Program (σ α : Type) where
  | done (a : α)
  | ask (r : Request σ) (next : r.Answer → Program σ α)

namespace Program

variable {σ α β : Type}

/-- The second program runs on the result of the first. -/
def bind : Program σ α → (α → Program σ β) → Program σ β
  | done a, k => k a
  | ask r next, k => ask r fun a => (next a).bind k

instance : Monad (Program σ) where
  pure := done
  bind := bind

/-- The program of a single request. -/
def request (r : Request σ) : Program σ r.Answer := ask r done

def read : Program σ σ := request .read

def write (s : σ) : Program σ Unit := request (.write s)

def modify (f : σ → σ) : Program σ Unit := do write (f (← read))

def fresh : Program σ Nat := request .fresh

def call (f : Callable) (args : List Value) : Program σ Outcome := request (.call f args)

def fits (s : Spec) (arg : Option Value) : Program σ Bool := request (.fits s arg)

def callValidated (v : Validated) (args : List Value) : Program σ Outcome :=
  request (.callValidated v args)

def callMemoized (memoizer : Nat) (args : List Value) : Program σ Outcome :=
  request (.callMemoized memoizer args)

def lookup (memoizer : Nat) (args : List Value) : Program σ (Option Value) :=
  request (.lookup memoizer args)

def store (memoizer : Nat) (args : List Value) (v : Value) : Program σ Unit :=
  request (.store memoizer args v)

def clear (memoizer : Nat) : Program σ Unit := request (.clear memoizer)

def size (memoizer : Nat) : Program σ Nat := request (.size memoizer)

def complain (e : UnknownMode) : Program σ Unit := request (.complain e)

/-- The first mismatch of an argument list against a signature. -/
def checkArgs (s : Signature) (f : Callable) (args : List Value) : Program σ (Option Mismatch) :=
  s.checkArgs fits f args

/-- The mismatch of a result against a signature. -/
def checkReturn (s : Signature) (f : Callable) (result : Value) : Program σ (Option Mismatch) :=
  s.checkReturn fits f result

end Program

end RuntimeContracts
