import RuntimeContracts.Proofs.Machine.World
import RuntimeContracts.Proofs.Spec.Simulation

/-!
Couplings of the machine with itself. A relation between computations that holds of the few things that
the machine can do, and that sequencing and wrapped calls respect, holds of every call: it is carried
through matching, validation, memoization and programs once and for all. A computation directly inside
of a wrapped call may also report a violation that it ignores, so there is a second relation for those.
Matching and validation ask less of the relation than memoization does.
-/
namespace RuntimeContracts

def Event.violation? : Event → Option Mismatch
  | violationIgnored e => some e
  | _ => none

def Event.isAside : Event → Bool
  | cache _ _ _ => false
  | _ => true

structure Visible (σ : Type) where
  nextIdentity : Nat
  caches : List (Nat × Cache)
  client : σ

def World.visible {σ : Type} (w : World σ) : Visible σ := ⟨w.nextIdentity, w.caches, w.client⟩

def World.withVisible {σ : Type} (w : World σ) (s : Visible σ) : World σ :=
  { w with nextIdentity := s.nextIdentity, caches := s.caches, client := s.client }

namespace Machine

variable {σ α : Type}

def onVisible (g : Visible σ → α × Visible σ) : Machine σ α := fun w =>
  some ((g w.visible).1, w.withVisible (g w.visible).2)

def readCache (i : Nat) : Machine σ Cache :=
  onVisible fun s => ((s.caches.lookup i).getD Cache.empty, s)

def writeCache (i : Nat) (c : Cache) : Machine σ Unit :=
  onVisible fun s => ((), { s with caches := Ascending.insert i c s.caches })

def answerFrom (call : Caller σ) (i : Nat) (m : Memoizer) (args : Key) : Option Value → Machine σ Outcome
  | some v => do
    recordCache i m (.hit args v)
    pure (.ok v)
  | none => do
    recordCache i m (.missed args)
    let outcome ← call m.function args
    recordCache i m (.answered args outcome)
    match outcome with
    | .ok v =>
      store i m args v
      pure (.ok v)
    | .error e => pure (.error e)

/-- Two relations between computations, the inner one for what happens directly inside of a wrapped
call, with what they have to respect for checks. -/
structure Checking (σ : Type) where
  outer : Simulation (Machine σ) (Machine σ)
  inner : Simulation (Machine σ) (Machine σ)
  inner_of_outer : ∀ {α : Type} {x y : Machine σ α}, outer.Rel x y → inner.Rel x y
  rel_within : ∀ {α : Type} (name : String) {x y : Machine σ α},
    inner.Rel x y → outer.Rel (within name x) (within name y)
  rel_raised : ∀ (name : String) (e : CallError),
    outer.Rel (record (.predicateRaised name e)) (record (.predicateRaised name e))
  rel_ignore : ∀ e : Mismatch, inner.Rel (record (.violationIgnored e)) (record (.violationIgnored e))

structure Coupling (σ : Type) extends Checking σ where
  rel_onVisible : ∀ {α : Type} (g : Visible σ → α × Visible σ),
    outer.Rel (onVisible g) (onVisible g)
  rel_record : ∀ event : Event, event.violation? = none →
    outer.Rel (record event) (record event)
  rel_none : ∀ α : Type, outer.Rel (fun _ => none : Machine σ α) (fun _ => none)
  rel_raised name e := rel_record (.predicateRaised name e) rfl

namespace Checking

def uniform (S : Simulation (Machine σ) (Machine σ))
    (rel_within : ∀ {α : Type} (name : String) (x y : Machine σ α), S.Rel x y →
      S.Rel (within name x) (within name y))
    (rel_record : ∀ event : Event, event.isAside → S.Rel (record event) (record event)) : Checking σ where
  outer := S
  inner := S
  inner_of_outer h := h
  rel_within name _ _ h := rel_within name _ _ h
  rel_raised name e := rel_record (.predicateRaised name e) rfl
  rel_ignore e := rel_record (.violationIgnored e) rfl

variable (C : Checking σ)

theorem rel_settle (mode : Mode) (violation : Option Mismatch) :
    C.inner.Rel (settle mode violation) (settle mode violation) := by
  cases violation with
  | none => exact C.inner.rel_pure none
  | some e =>
    simp only [settle]
    split
    · exact C.inner.rel_pure _
    · exact C.inner.rel_bind (C.rel_ignore e) fun _ => C.inner.rel_pure none

theorem rel_checkpoint (mode : Mode) {check check' : Machine σ (Option Mismatch)}
    (h : C.outer.Rel check check') :
    C.inner.Rel (checkpoint mode check) (checkpoint mode check') := by
  unfold checkpoint
  split
  · exact C.inner.rel_bind (C.inner_of_outer h) (C.rel_settle mode)
  · exact C.inner.rel_pure none

variable {call call' : Caller σ} (hcall : ∀ f args, C.outer.Rel (call f args) (call' f args))

include hcall

theorem rel_passes (f : Callable) (v : Value) : C.outer.Rel (passes call f v) (passes call' f v) := by
  apply C.outer.rel_bind (hcall f [v])
  intro outcome
  cases outcome with
  | ok w => exact C.outer.rel_pure _
  | error e =>
    exact C.outer.rel_bind (C.rel_raised f.name e) fun _ => C.outer.rel_pure false

theorem rel_fits (s : Spec) (arg : Option Value) :
    C.outer.Rel (fits call s arg) (fits call' s arg) :=
  C.outer.rel_fitsM (passes call') s arg fun f _ v => C.rel_passes hcall f v

theorem rel_checkArgs (s : Signature) (f : Callable) (args : Key) :
    C.outer.Rel (s.checkArgs (fits call) f args) (s.checkArgs (fits call') f args) :=
  C.outer.rel_checkArgs (fits call') s f args fun _ _ t _ arg => C.rel_fits hcall t arg

theorem rel_checkReturn (s : Signature) (f : Callable) (result : Value) :
    C.outer.Rel (s.checkReturn (fits call) f result) (s.checkReturn (fits call') f result) :=
  C.outer.rel_checkReturn (fits call') s f result fun t _ => C.rel_fits hcall t (some result)

/-- What a relation holds of calls it holds of validated calls. -/
theorem rel_callValidated (v : Validated) (args : Key) :
    C.outer.Rel (callValidated call v args) (callValidated call' v args) := by
  rw [callValidated_eq, callValidated_eq]
  apply C.rel_within
  have hargs := C.rel_checkpoint v.mode (C.rel_checkArgs hcall v.signature v.inner args)
  refine C.inner.rel_bind hargs fun violation => ?_
  cases violation with
  | some e => exact C.inner.rel_pure _
  | none =>
    refine C.inner.rel_bind (C.inner_of_outer (hcall v.inner args)) fun outcome => ?_
    cases outcome with
    | error e => exact C.inner.rel_pure _
    | ok result =>
      have hreturn := C.rel_checkpoint v.mode (C.rel_checkReturn hcall v.signature v.inner result)
      refine C.inner.rel_bind hreturn fun violation => ?_
      cases violation with
      | some e => exact C.inner.rel_pure _
      | none => exact C.inner.rel_pure _

end Checking

namespace Coupling

variable (C : Coupling σ)

theorem rel_memoizer (code : Code σ) (i : Nat) :
    C.outer.Rel (memoizer code i) (memoizer code i) := by
  cases hm : code.memoizers[i]? with
  | none =>
    have hnone : memoizer code i = fun _ => none := by
      funext w
      simp only [memoizer, hm, Option.map_none]
    rw [hnone]
    exact C.rel_none Memoizer
  | some m =>
    have hpure : memoizer code i = pure m := funext fun w => memoizer_apply code i m w hm
    rw [hpure]
    exact C.outer.rel_pure m

theorem rel_recordCache (i : Nat) (m : Memoizer) (step : CacheStep) :
    C.outer.Rel (recordCache i m step) (recordCache i m step) :=
  C.rel_record _ rfl

theorem rel_evictions (i : Nat) (m : Memoizer) (keys : List Key) :
    C.outer.Rel (keys.forM fun key => recordCache i m (.evicted key))
      (keys.forM fun key => recordCache i m (.evicted key)) := by
  induction keys with
  | nil => exact C.outer.rel_pure ()
  | cons key rest ih => exact C.outer.rel_bind (C.rel_recordCache i m _) fun _ => ih

theorem rel_store (i : Nat) (m : Memoizer) (args : Key) (v : Value) :
    C.outer.Rel (store i m args v) (store i m args v) := by
  have hstore : (store i m args v : Machine σ Unit) = (do
      let c ← readCache i
      writeCache i (c.store m.policy args v).cache
      (c.store m.policy args v).evicted.forM fun key => recordCache i m (.evicted key)
      recordCache i m (.stored args v (c.store m.policy args v).isNew)) := rfl
  rw [hstore]
  refine C.outer.rel_bind (C.rel_onVisible _) fun c => ?_
  refine C.outer.rel_bind (C.rel_onVisible _) fun _ => ?_
  exact C.outer.rel_bind (C.rel_evictions i m _) fun _ => C.rel_recordCache i m _

theorem rel_lookup (code : Code σ) (i : Nat) (args : Key) :
    C.outer.Rel (lookup code i args) (lookup code i args) := by
  have hlookup : lookup code i args = (do
      let m ← memoizer code i
      let c ← readCache i
      recordCache i m (.looked args (c.lookup args))
      pure (c.lookup args)) := rfl
  rw [hlookup]
  refine C.outer.rel_bind (C.rel_memoizer code i) fun m => ?_
  refine C.outer.rel_bind (C.rel_onVisible _) fun c => ?_
  exact C.outer.rel_bind (C.rel_recordCache i m _) fun _ => C.outer.rel_pure _

theorem rel_size (code : Code σ) (i : Nat) : C.outer.Rel (size code i) (size code i) := by
  have hsize : size code i = (do
      let m ← memoizer code i
      let c ← readCache i
      recordCache i m (.measured c.size)
      pure c.size) := rfl
  rw [hsize]
  refine C.outer.rel_bind (C.rel_memoizer code i) fun m => ?_
  refine C.outer.rel_bind (C.rel_onVisible _) fun c => ?_
  exact C.outer.rel_bind (C.rel_recordCache i m _) fun _ => C.outer.rel_pure _

theorem rel_clear (code : Code σ) (i : Nat) : C.outer.Rel (clear code i) (clear code i) := by
  have hclear : clear code i = (do
      let m ← memoizer code i
      let c ← readCache i
      writeCache i Cache.empty
      recordCache i m (.cleared c.size)) := rfl
  rw [hclear]
  refine C.outer.rel_bind (C.rel_memoizer code i) fun m => ?_
  refine C.outer.rel_bind (C.rel_onVisible _) fun c => ?_
  exact C.outer.rel_bind (C.rel_onVisible _) fun _ => C.rel_recordCache i m _

section Calls

variable {call call' : Caller σ} (hcall : ∀ f args, C.outer.Rel (call f args) (call' f args))

include hcall

theorem rel_answerFrom (i : Nat) (m : Memoizer) (args : Key) (found : Option Value) :
    C.outer.Rel (answerFrom call i m args found) (answerFrom call' i m args found) := by
  cases found with
  | some v => exact C.outer.rel_bind (C.rel_recordCache i m _) fun _ => C.outer.rel_pure _
  | none =>
    refine C.outer.rel_bind (C.rel_recordCache i m _) fun _ => ?_
    refine C.outer.rel_bind (hcall m.function args) fun outcome => ?_
    refine C.outer.rel_bind (C.rel_recordCache i m _) fun _ => ?_
    cases outcome with
    | ok v => exact C.outer.rel_bind (C.rel_store i m args v) fun _ => C.outer.rel_pure _
    | error e => exact C.outer.rel_pure _

/-- What a relation holds of calls it holds of memoized calls. -/
theorem rel_callMemoized (code : Code σ) (i : Nat) (args : Key) :
    C.outer.Rel (callMemoized code call i args) (callMemoized code call' i args) := by
  have hinside (c : Caller σ) : callMemoized code c i args = (do
      let m ← memoizer code i
      within m.function.name (do
        recordCache i m (.called args)
        let held ← readCache i
        answerFrom c i m args (held.lookup args))) := rfl
  rw [hinside, hinside]
  refine C.outer.rel_bind (C.rel_memoizer code i) fun m => C.rel_within _ (C.inner_of_outer ?_)
  refine C.outer.rel_bind (C.rel_recordCache i m _) fun _ => ?_
  exact C.outer.rel_bind (C.rel_onVisible _) fun held => C.rel_answerFrom hcall i m args _

theorem rel_answer (code : Code σ) (r : Request σ) :
    C.outer.Rel (answer code call r) (answer code call' r) := by
  cases r with
  | read => exact C.rel_onVisible fun s => (s.client, s)
  | write c => exact C.rel_onVisible fun s => ((), { s with client := c })
  | fresh =>
    exact C.rel_onVisible fun s => (s.nextIdentity, { s with nextIdentity := s.nextIdentity + 1 })
  | call f args => exact hcall f args
  | fits s arg => exact C.rel_fits hcall s arg
  | callValidated v args => exact C.rel_callValidated hcall v args
  | callMemoized i args => exact C.rel_callMemoized hcall code i args
  | lookup i args => exact C.rel_lookup code i args
  | store i args v =>
    exact C.outer.rel_bind (C.rel_memoizer code i) fun m => C.rel_store i m args v
  | clear i => exact C.rel_clear code i
  | size i => exact C.rel_size code i
  | complain e => exact C.rel_record (.modeUnknown e) rfl

/-- A relation that holds of all answers to requests holds of whole programs. -/
theorem rel_runProgram (code : Code σ) (p : Program σ α) :
    C.outer.Rel (runProgram code call p) (runProgram code call' p) := by
  induction p with
  | done a => exact C.outer.rel_pure a
  | ask r next ih => exact C.outer.rel_bind (C.rel_answer hcall code r) ih

theorem rel_runBody (code : Code σ) (f : Callable) (args : Key) (body : Body σ) :
    C.outer.Rel (runBody code call f args body) (runBody code call' f args body) := by
  cases body with
  | program run =>
    exact C.outer.rel_bind (C.rel_record (.started f.body args) rfl)
      fun _ => C.rel_runProgram hcall code (run args)
  | validated v => exact C.rel_callValidated hcall v args
  | memoized i => exact C.rel_callMemoized hcall code i args

end Calls

/-- Calls at two depths are coupled if they are where the smaller depth runs out. -/
theorem rel_call (code : Code σ) (more : Nat)
    (hout : ∀ f args, C.outer.Rel (call code 0 f args) (call code more f args)) (depth : Nat)
    (f : Callable) (args : Key) :
    C.outer.Rel (call code depth f args) (call code (depth + more) f args) := by
  induction depth generalizing f args with
  | zero =>
    rw [Nat.zero_add]
    exact hout f args
  | succ depth ih =>
    rw [Nat.succ_add]
    simp only [call]
    cases code.bodies[f.body]? with
    | none => exact C.rel_none Outcome
    | some body => exact C.rel_runBody ih code f args body

/-- Calls at one depth are coupled. -/
theorem rel_call_self (code : Code σ) (depth : Nat) (f : Callable) (args : Key) :
    C.outer.Rel (call code depth f args) (call code depth f args) :=
  C.rel_call code 0 (fun _ _ => C.rel_none Outcome) depth f args

end Coupling

end Machine

end RuntimeContracts
