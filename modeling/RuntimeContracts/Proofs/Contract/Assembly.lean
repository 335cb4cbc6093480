import RuntimeContracts.Contract
import RuntimeContracts.Proofs.Contract.Checkpoints
import RuntimeContracts.Proofs.Machine.Reachable
import RuntimeContracts.Proofs.Signature.Collecting

/-!
What becomes of a contract that is put together step by step. The specs add up, in the order of the steps;
of the cache policies and the modes the last one counts, and without any there is no cache, and the mode is
the one of the setting at the beginning. The function that is built is the first one with the cache and the
checks around it, and it is the very first function if there is neither a spec nor a policy.
-/
namespace RuntimeContracts

namespace Contract

inductive Change where
  | param (position : UInt64) (s : Spec)
  | returns (s : Spec)
  | contribute (k : Contribution)
  | memoize
  | memoizeWith (policy : CachePolicy)
  | withMode (mode : Mode)

namespace Change

def apply (c : Contract) : Change → Contract
  | param position s => c.param position s
  | returns s => c.returns s
  | contribute k => c.contribute k
  | memoize => c.memoize
  | memoizeWith policy => c.memoizeWith policy
  | withMode mode => c.withMode mode

def contribution? : Change → Option Contribution
  | param position s => some (.param position s)
  | returns s => some (.result s)
  | contribute k => some k
  | _ => none

def policy? : Change → Option CachePolicy
  | memoize => some .unbounded
  | memoizeWith policy => some policy
  | _ => none

def mode? : Change → Option Mode
  | withMode mode => some mode
  | _ => none

end Change

def assemble (c : Contract) (changes : List Change) : Contract := changes.foldl Change.apply c

def contributions (changes : List Change) : List Contribution := changes.filterMap Change.contribution?

def lastPolicy (changes : List Change) : Option CachePolicy := (changes.filterMap Change.policy?).getLast?

def lastMode (changes : List Change) : Option Mode := (changes.filterMap Change.mode?).getLast?

/-- Of some values the last one counts, the one before all of them if there are no others. -/
theorem getLast?_cons_or {α : Type} (a : α) (later : List α) (b : Option α) :
    ((a :: later).getLast?).or b = later.getLast?.or (some a) := by
  rw [List.getLast?_cons, Option.or_some, Option.some_or]

/-- The parts that are left at the end are those of all steps together. -/
theorem assemble_eq (c : Contract) (changes : List Change) : c.assemble changes =
    ⟨c.function, c.signature.extend (contributions changes), (lastPolicy changes).or c.memo,
      (lastMode changes).getD c.mode⟩ := by
  induction changes generalizing c with
  | nil => rfl
  | cons change rest ih =>
    refine (ih (change.apply c)).trans ?_
    unfold lastPolicy lastMode contributions
    cases change with
    | param position s => rfl
    | returns s => rfl
    | contribute k => rfl
    | memoize =>
      have hlast := getLast?_cons_or .unbounded (rest.filterMap Change.policy?) c.memo
      exact congrArg (Contract.mk c.function _ · _) hlast.symm
    | memoizeWith policy =>
      have hlast := getLast?_cons_or policy (rest.filterMap Change.policy?) c.memo
      exact congrArg (Contract.mk c.function _ · _) hlast.symm
    | withMode mode =>
      have hlast := getLast?_cons_or mode (rest.filterMap Change.mode?) (some c.mode)
      simp only [Option.or_some, Option.some.injEq] at hlast
      exact congrArg (Contract.mk c.function _ _) hlast.symm

end Contract

namespace Engine

variable {σ : Type}

/-- The cache of a memoizer yet to come is empty. -/
theorem Reachable.cache_of_size_le {e : Engine σ} (he : e.Reachable) {i : Nat}
    (hi : e.code.memoizers.size ≤ i) : e.world.cache i = Cache.empty := by
  obtain ⟨s, h⟩ := he.evolves i
  exact (h.untouched (Array.getElem?_eq_none hi)).2

end Engine

namespace Contract

variable {σ : Type}

def cached (c : Contract) (e : Engine σ) : Callable × Engine σ :=
  match c.memo with
  | some policy => Engine.memoize c.function policy e
  | none => (c.function, e)

/-- Checks are put around the function only if there is a spec, and around its cache. -/
theorem build_eq (c : Contract) (e : Engine σ) : c.build e =
    if c.signature.isEmpty then c.cached e
    else Engine.defineValidated ⟨(c.cached e).1, c.signature, c.mode⟩ (c.cached e).2 := by
  obtain ⟨f, s, memo, mode⟩ := c
  unfold build
  cases hempty : s.isEmpty <;> cases memo <;> rfl

theorem extends_cached (c : Contract) (e : Engine σ) : e.Extends (c.cached e).2 := by
  unfold cached
  cases c.memo with
  | none => exact Engine.extends_refl e
  | some policy =>
    exact (Engine.extends_defineMemoizer e ⟨c.function, policy⟩).trans (Engine.extends_define _ _ _ _)

/-- Building a contract takes nothing away from the engine. -/
theorem extends_build (c : Contract) (e : Engine σ) : e.Extends (c.build e).2 := by
  rw [build_eq]
  split
  · exact c.extends_cached e
  · exact (c.extends_cached e).trans (Engine.extends_define _ _ _ _)

/-- Building keeps the engine of the cache. -/
theorem extends_build_cached (c : Contract) (e : Engine σ) : (c.cached e).2.Extends (c.build e).2 := by
  rw [build_eq]
  split
  · exact Engine.extends_refl _
  · exact Engine.extends_define _ _ _ _

end Contract

/-- Function `g` of the second engine is function `f` of the first with the parts of a contract around
it: `h` is the function with its cache, if there is a policy, and the checks are around `h`, if there are
any specs. -/
structure Engine.Composes {σ : Type} (e e' : Engine σ) (f h g : Callable) (s : Signature)
    (memo : Option CachePolicy) (mode : Mode) : Prop extends e.Extends e' where
  named : h.name = f.name ∧ h.params = f.params ∧ g.name = f.name ∧ g.params = f.params
  /-- A policy makes for a cache, which is new and empty. -/
  cached : ∀ policy, memo = some policy → ∃ i, e'.code.bodies[h.body]? = some (.memoized i) ∧
    e'.code.memoizers[i]? = some ⟨f, policy⟩ ∧ e.code.memoizers[i]? = none ∧
    e'.world.cache i = Cache.empty
  uncached : memo = none → h = f
  checked : s.isEmpty = false → e'.code.bodies[g.body]? = some (.validated ⟨h, s, mode⟩)
  unchecked : s.isEmpty → g = h
  /-- Calls of `g`, any number of them, are validated calls of `h`, whatever the mode and also if there
  is nothing to check. -/
  calls : ∀ depth (argss : List Key) (w : World σ),
    Machine.Alike
      (argss.mapM (Machine.call e'.code (depth + if s.isEmpty then 0 else 1) g) w)
      (argss.mapM (Machine.callValidated (Machine.call e'.code depth) ⟨h, s, mode⟩) w)
  /-- It is the very first function exactly if there is nothing around it. -/
  same : g == f ↔ s.isEmpty ∧ memo = none

section Building

variable {σ : Type} (c : Contract) (e : Engine σ)

theorem Contract.named_cached :
    (c.cached e).1.name = c.function.name ∧ (c.cached e).1.params = c.function.params := by
  unfold cached
  cases c.memo <;> exact ⟨rfl, rfl⟩

/-- The function with the cache is a new one. -/
theorem Contract.body_cached {policy : CachePolicy} (hmemo : c.memo = some policy) :
    (c.cached e).1.body = e.code.bodies.size ∧
      (c.cached e).2.code.bodies[(c.cached e).1.body]? = some (.memoized e.code.memoizers.size) ∧
      (c.cached e).2.code.memoizers[e.code.memoizers.size]? = some ⟨c.function, policy⟩ := by
  unfold cached
  rw [hmemo]
  exact ⟨rfl, Array.getElem?_push_size, Array.getElem?_push_size⟩

theorem Contract.cached_of_none (hmemo : c.memo = none) : c.cached e = (c.function, e) := by
  unfold cached
  rw [hmemo]

theorem Contract.build_of_isEmpty (hempty : c.signature.isEmpty) : c.build e = c.cached e := by
  rw [build_eq, if_pos hempty]

/-- The function with the checks is a new one. -/
theorem Contract.build_of_not_isEmpty (hspecs : c.signature.isEmpty = false) :
    (c.build e).1 = ⟨(c.cached e).1.name, (c.cached e).1.params, (c.cached e).2.code.bodies.size⟩ ∧
      (c.build e).2.code.bodies[(c.build e).1.body]? =
        some (.validated ⟨(c.cached e).1, c.signature, c.mode⟩) := by
  rw [build_eq, hspecs]
  exact ⟨rfl, Array.getElem?_push_size⟩

/-- What is built has the name and the parameters of the function. -/
theorem Contract.named_build :
    (c.build e).1.name = c.function.name ∧ (c.build e).1.params = c.function.params := by
  obtain ⟨hname, hparams⟩ := c.named_cached e
  cases hempty : c.signature.isEmpty with
  | true =>
    rw [c.build_of_isEmpty e hempty]
    exact ⟨hname, hparams⟩
  | false =>
    rw [(c.build_of_not_isEmpty e hempty).1]
    exact ⟨hname, hparams⟩

/-- Calls of the function that is built are validated calls of the one with the cache. -/
theorem Contract.calls_build (depth : Nat) (argss : List Key) (w : World σ) :
    Machine.Alike
      (argss.mapM (Machine.call (c.build e).2.code
        (depth + if c.signature.isEmpty then 0 else 1) (c.build e).1) w)
      (argss.mapM (Machine.callValidated (Machine.call (c.build e).2.code depth)
        ⟨(c.cached e).1, c.signature, c.mode⟩) w) := by
  refine Machine.regardless.rel_mapM _ _ argss (fun args => ?_) w w rfl
  cases hempty : c.signature.isEmpty with
  | true =>
    rw [c.build_of_isEmpty e hempty, Machine.callValidated_of_isEmpty _ _ _ _ _ hempty]
    have hcalls := Machine.disregard.rel_call_self (c.cached e).2.code depth (c.cached e).1 args
    exact fun w w' hw => Machine.alike_within hcalls _ hw
  | false =>
    have hvalidated := (c.build_of_not_isEmpty e hempty).2
    rw [if_neg Bool.false_ne_true, Machine.call_validated _ args depth _ _ hvalidated]
    exact fun w w' hw => (Machine.disregard.rel_callValidated
      (Machine.disregard.rel_call_self _ depth) ⟨_, c.signature, c.mode⟩ args) w w' hw

/-- The function that is built is the first one only if nothing was put around it. -/
theorem Contract.build_beq_function (hf : c.function.body < e.code.bodies.size) :
    (c.build e).1 == c.function ↔ c.signature.isEmpty ∧ c.memo = none := by
  have hgrown := (c.extends_cached e).size
  cases hempty : c.signature.isEmpty with
  | false =>
    have hne : (c.cached e).2.code.bodies.size ≠ c.function.body := by omega
    rw [(c.build_of_not_isEmpty e hempty).1]
    simpa [BEq.beq] using hne
  | true =>
    rw [c.build_of_isEmpty e hempty]
    cases hmemo : c.memo with
    | none =>
      rw [c.cached_of_none e hmemo]
      simp [BEq.beq]
    | some policy =>
      have hne : (c.cached e).1.body ≠ c.function.body := by
        rw [(c.body_cached e hmemo).1]
        omega
      simpa [BEq.beq] using hne

/-- What a contract is built into. -/
theorem Contract.composes_build (he : e.Reachable) (hf : c.function.body < e.code.bodies.size) :
    e.Composes (c.build e).2 c.function (c.cached e).1 (c.build e).1 c.signature c.memo c.mode where
  toExtends := c.extends_build e
  named := ⟨(c.named_cached e).1, (c.named_cached e).2, c.named_build e⟩
  cached policy hmemo := by
    obtain ⟨-, hbody, hmemoizer⟩ := c.body_cached e hmemo
    have hkept := c.extends_build_cached e
    refine ⟨e.code.memoizers.size, hkept.bodies _ _ hbody, hkept.memoizers _ _ hmemoizer,
      Array.getElem?_eq_none (Nat.le_refl _), ?_⟩
    rw [(c.extends_build e).world]
    exact he.cache_of_size_le (Nat.le_refl _)
  uncached hmemo := by rw [c.cached_of_none e hmemo]
  checked hspecs := (c.build_of_not_isEmpty e hspecs).2
  unchecked hempty := by rw [c.build_of_isEmpty e hempty]
  calls := c.calls_build e
  same := c.build_beq_function e hf

end Building

def World.recordUnknown {σ : Type} (w : World σ) : Option UnknownMode → World σ
  | none => w
  | some e => w.record (.modeUnknown e)

theorem Contract.runProgram_modeOfSetting {σ : Type} (code : Code σ) (call : Machine.Caller σ)
    (setting : Option String) (w : World σ) :
    Machine.runProgram code call (modeOfSetting setting) w =
      some ((Mode.ofSetting setting).1, w.recordUnknown (Mode.ofSetting setting).2) := by
  unfold modeOfSetting
  obtain ⟨mode, unknown⟩ := Mode.ofSetting setting
  cases unknown <;> rfl

/-- A contract begins empty, in the mode of the setting. -/
theorem Contract.runProgram_new {σ : Type} (code : Code σ) (call : Machine.Caller σ) (f : Callable)
    (setting : Option String) (w : World σ) :
    Machine.runProgram code call (Contract.new f setting) w =
      some (⟨f, .empty, none, (Mode.ofSetting setting).1⟩,
        w.recordUnknown (Mode.ofSetting setting).2) := by
  unfold new
  rw [Machine.runProgram_bind, Machine.bind_apply, runProgram_modeOfSetting]
  rfl

/-- Without contributions and policies among the steps there is nothing to put around the function. -/
theorem Contract.forall_none_iff (changes : List Change) :
    (contributions changes = [] ∧ lastPolicy changes = none) ↔
      ∀ change ∈ changes, change.contribution? = none ∧ change.policy? = none := by
  unfold contributions lastPolicy
  rw [List.getLast?_eq_none_iff, List.filterMap_eq_nil_iff, List.filterMap_eq_nil_iff]
  exact ⟨fun h change hmem => ⟨h.1 change hmem, h.2 change hmem⟩,
    fun h => ⟨fun change hmem => (h change hmem).1, fun change hmem => (h change hmem).2⟩⟩

/-- A contract that is put together in any number of steps is built into the function with the cache of the
last policy and, around both, the checks of all contributions in the last mode or else that of the
setting. -/
theorem contract_chain_composes {σ : Type} (e : Engine σ) (he : e.Reachable) (f : Callable)
    (hf : f.body < e.code.bodies.size) (setting : Option String) (changes : List Contract.Change)
    (depth : Nat) :
    ∃ c w, Machine.runProgram e.code (Machine.call e.code depth) (Contract.new f setting) e.world =
        some (c, w) ∧ w = e.world.recordUnknown (Mode.ofSetting setting).2 ∧
      ∃ g e' h s, (c.assemble changes).build ⟨e.code, w⟩ = (g, e') ∧
        s.Collects (Contract.contributions changes) ∧
        Engine.Composes ⟨e.code, w⟩ e' f h g s (Contract.lastPolicy changes)
          ((Contract.lastMode changes).getD (Mode.ofSetting setting).1) ∧
        (g == f ↔ ∀ change ∈ changes, change.contribution? = none ∧ change.policy? = none) := by
  let c : Contract := ⟨f, .empty, none, (Mode.ofSetting setting).1⟩
  let w := e.world.recordUnknown (Mode.ofSetting setting).2
  have hnew := Contract.runProgram_new e.code (Machine.call e.code depth) f setting e.world
  have hreachable : Engine.Reachable ⟨e.code, w⟩ := he.run (Contract.new f setting) depth c w hnew
  have hcollects := Signature.collects_ofContributions (Contract.contributions changes)
  let c' : Contract := ⟨f, .ofContributions (Contract.contributions changes),
    Contract.lastPolicy changes, (Contract.lastMode changes).getD c.mode⟩
  have hassemble : c.assemble changes = c' := by
    rw [Contract.assemble_eq, Option.or_none]
    rfl
  have hcomposes := c'.composes_build ⟨e.code, w⟩ hreachable hf
  have hbuild : (c.assemble changes).build ⟨e.code, w⟩ =
      ((c'.build ⟨e.code, w⟩).1, (c'.build ⟨e.code, w⟩).2) := by
    rw [hassemble]
    rfl
  refine ⟨c, w, hnew, rfl, _, _, _, _, hbuild, hcollects, hcomposes, ?_⟩
  rw [← Contract.forall_none_iff, ← hcollects.empty]
  exact hcomposes.same

/-- Two policies and two modes, of which the later ones count, and a setting that names no mode. -/
theorem contract_chain_composes_last :
    let defined := Engine.define "first" ["x"] (.program fun args => pure (.ok (args.headD .undefined)))
      (Engine.start ())
    let f := defined.1
    let e := defined.2
    let changes : List Contract.Change := [.withMode .off, .memoize, .returns (.native .bool),
      .memoizeWith (.bounded 1 Nat.one_pos), .param 0 .any, .withMode .warn]
    e.Reachable ∧ f.body < e.code.bodies.size ∧
      ∃ c w, Machine.runProgram e.code (Machine.call e.code 1) (Contract.new f (some "none")) e.world =
          some (c, w) ∧ w = e.world.record (.modeUnknown ⟨"none"⟩) ∧
        ∃ g e' h s, (c.assemble changes).build ⟨e.code, w⟩ = (g, e') ∧
          s.Collects [.result (.native .bool), .param 0 .any] ∧
          Engine.Composes ⟨e.code, w⟩ e' f h g s (some (.bounded 1 Nat.one_pos)) .warn ∧
          (g == f ↔ ∀ change ∈ changes, change.contribution? = none ∧ change.policy? = none) := by
  intro defined f e changes
  have he : e.Reachable := .define (.start ()) _ _ _
  have hf : f.body < e.code.bodies.size := Nat.zero_lt_one
  have hunknown : Mode.ofSetting (some "none") = (.enforce, some ⟨"none"⟩) := by decide +kernel
  have hcomposes := contract_chain_composes e he f hf (some "none") changes 1
  rw [hunknown] at hcomposes
  exact ⟨he, hf, hcomposes⟩

end RuntimeContracts
