import RuntimeContracts.Machine.Run
import RuntimeContracts.Proofs.Ascending
import RuntimeContracts.Proofs.Cache.Trace

/-!
What one computation does to a world. The world is read through three views: the cache of a memoizer,
the steps of that cache in the journal, and the calls in progress. Every operation of the machine has
one equation that gives its result and the world it leaves.
-/
namespace RuntimeContracts

def Entry.stepOf (i : Nat) (e : Entry) : Option CacheStep :=
  match e.event with
  | .cache j _ step => if j = i then some step else none
  | _ => none

namespace World

variable {σ : Type} (w : World σ) (i j : Nat) (m : Memoizer)

def steps : List CacheStep := w.journal.reverse.filterMap (Entry.stepOf i)

def note (step : CacheStep) : World σ := w.record (.cache i m.function.name step)

def noteAll (steps : List CacheStep) : World σ := steps.foldl (fun w s => w.note i m s) w

theorem noteAll_append (steps steps' : List CacheStep) :
    w.noteAll i m (steps ++ steps') = (w.noteAll i m steps).noteAll i m steps' :=
  List.foldl_append

def storeIn (args : Key) (v : Value) : World σ :=
  (w.setCache i ((w.cache i).store m.policy args v).cache).noteAll i m
    ((w.cache i).storing m.policy args v)

def withActive (names : List String) : World σ := { w with active := names }

/-- The world in which a memoized call asks its callable. -/
def missing (args : Key) : World σ :=
  ((w.withActive (m.function.name :: w.active)).note i m (.called args)).note i m (.missed args)

def hitting (args : Key) (v : Value) : World σ :=
  (((w.withActive (m.function.name :: w.active)).note i m (.called args)).note i m
    (.hit args v)).withActive w.active

def concluding (args : Key) : Outcome → World σ
  | .ok v => (w.note i m (.answered args (.ok v))).storeIn i m args v
  | .error e => w.note i m (.answered args (.error e))

@[simp] theorem cache_withActive (names : List String) : (w.withActive names).cache i = w.cache i :=
  rfl

@[simp] theorem steps_withActive (names : List String) : (w.withActive names).steps i = w.steps i :=
  rfl

@[simp] theorem cache_record (event : Event) : (w.record event).cache i = w.cache i := rfl

theorem steps_record (event : Event) :
    (w.record event).steps i = w.steps i ++ (Entry.stepOf i ⟨event, w.active⟩).toList := by
  simp only [steps, record, List.reverse_cons, List.filterMap_append]
  rfl

@[simp] theorem cache_note (step : CacheStep) : (w.note j m step).cache i = w.cache i := rfl

@[simp] theorem steps_note (step : CacheStep) : (w.note i m step).steps i = w.steps i ++ [step] := by
  simp [note, steps_record, Entry.stepOf]

theorem steps_note_of_ne (step : CacheStep) (h : j ≠ i) : (w.note j m step).steps i = w.steps i := by
  simp [note, steps_record, Entry.stepOf, h]

@[simp] theorem cache_noteAll (steps : List CacheStep) : (w.noteAll j m steps).cache i = w.cache i := by
  induction steps generalizing w with
  | nil => rfl
  | cons s rest ih => exact ih (w.note j m s)

@[simp] theorem steps_noteAll (steps : List CacheStep) :
    (w.noteAll i m steps).steps i = w.steps i ++ steps := by
  induction steps generalizing w with
  | nil => exact (List.append_nil _).symm
  | cons s rest ih =>
    have hrest := ih (w.note i m s)
    rwa [steps_note, List.append_assoc] at hrest

theorem steps_noteAll_of_ne (steps : List CacheStep) (h : j ≠ i) :
    (w.noteAll j m steps).steps i = w.steps i := by
  induction steps generalizing w with
  | nil => rfl
  | cons s rest ih => exact (ih (w.note j m s)).trans (steps_note_of_ne w i j m s h)

@[simp] theorem steps_setCache (c : Cache) : (w.setCache j c).steps i = w.steps i := rfl

@[simp] theorem cache_setCache (c : Cache) : (w.setCache i c).cache i = c := by
  simp only [cache, setCache, Ascending.lookup_insert_self Nat.lt_irrefl, Option.getD_some]

theorem cache_setCache_of_ne (c : Cache) (h : j ≠ i) : (w.setCache j c).cache i = w.cache i := by
  have heq : ∀ a b : Nat, ¬ a < b → ¬ b < a → a = b := fun a b hab hba => by omega
  simp only [cache, setCache, Ascending.insert, Ascending.lookup_alter_of_ne heq i j _ _ h.symm]

@[simp] theorem cache_storeIn (args : Key) (v : Value) :
    (w.storeIn i m args v).cache i = ((w.cache i).store m.policy args v).cache := by
  simp only [storeIn, cache_noteAll, cache_setCache]

@[simp] theorem steps_storeIn (args : Key) (v : Value) :
    (w.storeIn i m args v).steps i = w.steps i ++ (w.cache i).storing m.policy args v := by
  simp only [storeIn, steps_noteAll, steps_setCache]

theorem cache_storeIn_of_ne (args : Key) (v : Value) (h : j ≠ i) :
    (w.storeIn j m args v).cache i = w.cache i := by
  simp only [storeIn, cache_noteAll, cache_setCache_of_ne w i j _ h]

theorem steps_storeIn_of_ne (args : Key) (v : Value) (h : j ≠ i) :
    (w.storeIn j m args v).steps i = w.steps i := by
  simp only [storeIn, steps_noteAll_of_ne _ i j m _ h, steps_setCache]

/-- After the callable has answered, the answer is noted, and a value is stored. -/
theorem steps_concluding (args : Key) (outcome : Outcome) :
    (w.concluding i m args outcome).steps i =
      w.steps i ++ .answered args outcome :: (w.cache i).closing m.policy args outcome := by
  cases outcome <;> simp [concluding, Cache.closing]

theorem journal_note (step : CacheStep) : w.journal <:+ (w.note j m step).journal :=
  List.suffix_cons _ _

theorem journal_noteAll (steps : List CacheStep) : w.journal <:+ (w.noteAll j m steps).journal := by
  induction steps generalizing w with
  | nil => exact List.suffix_rfl
  | cons s rest ih => exact (journal_note w j m s).trans (ih (w.note j m s))

theorem journal_storeIn (args : Key) (v : Value) : w.journal <:+ (w.storeIn j m args v).journal :=
  journal_noteAll (w.setCache j ((w.cache j).store m.policy args v).cache) j m _

theorem journal_missing (args : Key) : w.journal <:+ (w.missing j m args).journal :=
  (List.suffix_cons _ _).trans (List.suffix_cons _ _)

theorem journal_hitting (args : Key) (v : Value) : w.journal <:+ (w.hitting j m args v).journal :=
  (List.suffix_cons _ _).trans (List.suffix_cons _ _)

theorem journal_concluding (args : Key) (outcome : Outcome) :
    w.journal <:+ (w.concluding j m args outcome).journal := by
  have hanswered := journal_note w j m (.answered args outcome)
  cases outcome with
  | error e => exact hanswered
  | ok v => exact hanswered.trans (journal_storeIn _ j m args v)

end World

namespace Machine

variable {σ α β : Type}

theorem bind_apply (x : Machine σ α) (k : α → Machine σ β) (w : World σ) :
    (x >>= k) w = (x w).bind fun r => k r.1 r.2 := rfl

theorem pure_apply (a : α) (w : World σ) : (pure a : Machine σ α) w = some (a, w) := rfl

theorem recordCache_apply (i : Nat) (m : Memoizer) (step : CacheStep) (w : World σ) :
    recordCache i m step w = some ((), w.note i m step) := rfl

theorem bind_eq_some (x : Machine σ α) (k : α → Machine σ β) (w w' : World σ) (b : β)
    (h : (x >>= k) w = some (b, w')) : ∃ a w₁, x w = some (a, w₁) ∧ k a w₁ = some (b, w') := by
  obtain ⟨⟨a, w₁⟩, hx, hk⟩ := Option.bind_eq_some_iff.mp h
  exact ⟨a, w₁, hx, hk⟩

/-- A wrapped call is in progress for as long as it runs, and not any longer. -/
theorem within_apply (name : String) (act : Machine σ α) (w : World σ) :
    within name act w =
      (act (w.withActive (name :: w.active))).map fun r => (r.1, r.2.withActive w.active) := by
  change ((act (w.withActive (name :: w.active))).bind fun r => some (r.1, _)) = _
  cases act (w.withActive (name :: w.active)) <;> rfl

theorem forM_recordCache (i : Nat) (m : Memoizer) (keys : List Key) (w : World σ) :
    (keys.forM fun key => recordCache i m (.evicted key)) w =
      some ((), w.noteAll i m (keys.map CacheStep.evicted)) := by
  induction keys generalizing w with
  | nil => rfl
  | cons key rest ih => exact ih (w.note i m (.evicted key))

/-- A store always has a result. -/
theorem store_apply (i : Nat) (m : Memoizer) (args : Key) (v : Value) (w : World σ) :
    store i m args v w = some ((), w.storeIn i m args v) := by
  let stored := (w.cache i).store m.policy args v
  change ((stored.evicted.forM fun key => recordCache i m (.evicted key))
    (w.setCache i stored.cache)).bind (fun r => recordCache i m _ r.2) = _
  rw [forM_recordCache, World.storeIn, Cache.storing, World.noteAll_append]
  rfl

variable (code : Code σ) (call : Caller σ) (i : Nat) (m : Memoizer) (args : Key) (w : World σ)

theorem memoizer_apply (hm : code.memoizers[i]? = some m) : memoizer code i w = some (m, w) := by
  simp [memoizer, hm]

/-- A look-up answers what the cache has, and changes nothing but the journal. -/
theorem lookup_apply (hm : code.memoizers[i]? = some m) :
    lookup code i args w =
      some ((w.cache i).lookup args, w.note i m (.looked args ((w.cache i).lookup args))) := by
  rw [lookup, bind_apply, memoizer_apply code i m w hm]
  rfl

theorem size_apply (hm : code.memoizers[i]? = some m) :
    size code i w = some ((w.cache i).size, w.note i m (.measured (w.cache i).size)) := by
  rw [size, bind_apply, memoizer_apply code i m w hm]
  rfl

/-- A clear leaves the empty cache and notes how much was dropped. -/
theorem clear_apply (hm : code.memoizers[i]? = some m) :
    clear code i w =
      some ((), (w.setCache i Cache.empty).note i m (.cleared (w.cache i).size)) := by
  rw [clear, bind_apply, memoizer_apply code i m w hm]
  rfl

/-- A memoized call answers from its cache or else asks its callable, at most once. -/
theorem callMemoized_eq (hm : code.memoizers[i]? = some m) :
    callMemoized code call i args w =
      match (w.cache i).lookup args with
      | some v => some (.ok v, w.hitting i m args v)
      | none => (call m.function args (w.missing i m args)).map fun r =>
          (r.1, (r.2.concluding i m args r.1).withActive w.active) := by
  rw [callMemoized, bind_apply, memoizer_apply code i m w hm, Option.bind_some, within_apply]
  change Option.map _ ((match (w.cache i).lookup args with
    | some v => _
    | none => _ : Machine σ Outcome)
      ((w.withActive (m.function.name :: w.active)).note i m (.called args))) = _
  cases (w.cache i).lookup args with
  | some v => rfl
  | none =>
    simp only [bind_apply, recordCache_apply, Option.bind_some]
    change Option.map _ ((call m.function args (w.missing i m args)).bind _) = _
    cases call m.function args (w.missing i m args) with
    | none => rfl
    | some r =>
      obtain ⟨outcome, w₁⟩ := r
      cases outcome with
      | error e => rfl
      | ok v =>
        simp only [Option.bind_some, bind_apply, store_apply, pure_apply]
        rfl

/-- A memoizer that the code does not have answers nothing. -/
theorem callMemoized_eq_none (hm : code.memoizers[i]? = none) :
    callMemoized code call i args w = none := by
  have hmem : memoizer code i w = none := by simp [memoizer, hm]
  rw [callMemoized, bind_apply, hmem]
  rfl

/-- To run one program after another is to run both. -/
theorem runProgram_bind (p : Program σ α) (k : α → Program σ β) :
    runProgram code call (p >>= k) = runProgram code call p >>= fun a => runProgram code call (k a) := by
  induction p with
  | done a =>
    have hpure := pure_bind (m := Machine σ) a fun a => runProgram code call (k a)
    exact hpure.symm
  | ask r next ih =>
    change (answer code call r >>= fun a => runProgram code call (next a >>= k)) =
      (answer code call r >>= fun a => runProgram code call (next a)) >>= _
    simp only [ih, bind_assoc]

def checkpoint (mode : Mode) (check : Machine σ (Option Mismatch)) : Machine σ (Option Mismatch) :=
  if mode.checks then check >>= settle mode else pure none

/-- A validated call is its callable between two checkpoints. -/
theorem callValidated_eq (v : Validated) :
    callValidated call v args = within v.inner.name (do
      match ← checkpoint v.mode (v.signature.checkArgs (fits call) v.inner args) with
      | some e => pure (.error (.mismatch e))
      | none =>
        match ← call v.inner args with
        | .error e => pure (.error e)
        | .ok result =>
          match ← checkpoint v.mode (v.signature.checkReturn (fits call) v.inner result) with
          | some e => pure (.error (.mismatch e))
          | none => pure (.ok result)) := by
  unfold callValidated checkpoint
  congr 1
  cases v.mode.checks <;> rfl

section Call

variable (depth : Nat) (f : Callable)

/-- Every call takes one level of depth. -/
theorem exists_depth_of_call (r : Outcome × World σ) (h : Machine.call code depth f args w = some r) :
    ∃ inner, depth = inner + 1 := by
  cases depth with
  | zero => cases h
  | succ inner => exact ⟨inner, rfl⟩

theorem call_program (body : Key → Program σ Outcome)
    (hbody : code.bodies[f.body]? = some (.program body)) :
    Machine.call code (depth + 1) f args =
      record (.started f.body args) >>= fun _ =>
        runProgram code (Machine.call code depth) (body args) := by
  simp only [Machine.call, hbody, runBody]

theorem call_validated (v : Validated) (hbody : code.bodies[f.body]? = some (.validated v)) :
    Machine.call code (depth + 1) f args = callValidated (Machine.call code depth) v args := by
  simp only [Machine.call, hbody, runBody]

/-- A call of a function made from a memoizer is a call of this memoizer. -/
theorem call_memoized (hbody : code.bodies[f.body]? = some (.memoized i)) :
    Machine.call code (depth + 1) f args = callMemoized code (Machine.call code depth) i args := by
  simp only [Machine.call, hbody, runBody]

end Call

variable {code}

/-- A call of a function with a body of its own starts the body and then runs it. -/
theorem runProgram_of_call {f : Callable} {body : Key → Program σ Outcome}
    (hbody : code.bodies[f.body]? = some (.program body)) (depth : Nat) (args : Key) (w w' : World σ)
    (outcome : Outcome) (hrun : Machine.call code depth f args w = some (outcome, w')) :
    ∃ inner, depth = inner + 1 ∧ runProgram code (Machine.call code inner) (body args)
      (w.record (.started f.body args)) = some (outcome, w') := by
  obtain ⟨inner, rfl⟩ := exists_depth_of_call code args w depth f _ hrun
  rw [call_program code args inner f body hbody] at hrun
  obtain ⟨_, w₁, hstarted, hprogram⟩ := bind_eq_some _ _ _ _ _ hrun
  obtain rfl : w.record (.started f.body args) = w₁ :=
    congrArg Prod.snd (Option.some.inj hstarted)
  exact ⟨inner, rfl, hprogram⟩

end Machine

end RuntimeContracts
