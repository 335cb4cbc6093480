import RuntimeContracts.Proofs.Machine.Evolution

/-!
Executions of bodies, as the journal has them. Caches come and go without any; a call of a function with
a body of its own begins with one, on the arguments of the call, and it is the only one if the body does
not come back to itself.
-/
namespace RuntimeContracts

def Entry.startOf (body : Nat) (e : Entry) : Option Key :=
  match e.event with
  | .started b args => if b = body then some args else none
  | _ => none

namespace World

variable {σ : Type} (w : World σ) (i body : Nat)

def executions : List Key := w.journal.reverse.filterMap (Entry.startOf body)

def standing : List CacheStep × Cache × List Key := (w.steps i, w.cache i, w.executions body)

/-- Only the start of a body adds to its executions. -/
theorem executions_record (event : Event) :
    (w.record event).executions body =
      w.executions body ++ (Entry.startOf body ⟨event, w.active⟩).toList := by
  simp only [executions, record, List.reverse_cons, List.filterMap_append]
  rfl

theorem standing_record (event : Event) (hstep : Entry.stepOf i ⟨event, w.active⟩ = none)
    (hstart : Entry.startOf body ⟨event, w.active⟩ = none) :
    (w.record event).standing i body = w.standing i body := by
  simp [standing, steps_record, executions_record, hstep, hstart]

@[simp] theorem executions_withActive (names : List String) :
    (w.withActive names).executions body = w.executions body := rfl

@[simp] theorem executions_note (m : Memoizer) (step : CacheStep) :
    (w.note i m step).executions body = w.executions body := by
  simp [note, executions_record, Entry.startOf]

@[simp] theorem executions_noteAll (m : Memoizer) (steps : List CacheStep) :
    (w.noteAll i m steps).executions body = w.executions body := by
  induction steps generalizing w with
  | nil => rfl
  | cons s rest ih => exact (ih (w.note i m s)).trans (executions_note w i body m s)

@[simp] theorem executions_storeIn (m : Memoizer) (args : Key) (v : Value) :
    (w.storeIn i m args v).executions body = w.executions body := by
  rw [storeIn, executions_noteAll]
  rfl

@[simp] theorem executions_concluding (m : Memoizer) (args : Key) (outcome : Outcome) :
    (w.concluding i m args outcome).executions body = w.executions body := by
  cases outcome <;> simp [concluding]

/-- Two worlds stand alike if the memoizer has come to the same point and the body has been executed alike. -/
theorem standing_eq_iff {w w' : World σ} {i body : Nat} : w'.standing i body = w.standing i body ↔
    w'.steps i = w.steps i ∧ w'.cache i = w.cache i ∧ w'.executions body = w.executions body := by
  rw [standing, standing, Prod.mk.injEq, Prod.mk.injEq]

end World

/-- What has been executed by one moment has been by every later one. -/
theorem World.executions_of_grown {σ : Type} {w w' : World σ} (h : w.journal <:+ w'.journal)
    (body : Nat) : ∃ more, w'.executions body = w.executions body ++ more := by
  obtain ⟨entries, hentries⟩ := h
  refine ⟨entries.reverse.filterMap (Entry.startOf body), ?_⟩
  rw [executions, ← hentries, List.reverse_append, List.filterMap_append]
  rfl

/-- The first execution in a call of a function with a body of its own is on the arguments of the call. -/
theorem Machine.executions_of_call {σ : Type} {code : Code σ} {f : Callable}
    {body : Key → Program σ Outcome} (hbody : code.bodies[f.body]? = some (.program body)) (depth : Nat)
    (args : Key) (w w' : World σ) (outcome : Outcome)
    (hrun : call code depth f args w = some (outcome, w')) :
    ∃ more, w'.executions f.body = w.executions f.body ++ args :: more := by
  obtain ⟨inner, rfl, hprogram⟩ := runProgram_of_call hbody depth args w w' outcome hrun
  have hcourse := courses_runProgram code inner (body args) _ _ _ hprogram
  obtain ⟨more, hmore⟩ := World.executions_of_grown hcourse.grown f.body
  refine ⟨more, ?_⟩
  rw [hmore, World.executions_record]
  simp [Entry.startOf]

/-- The function has a body of its own, which does not come back to itself. -/
def Code.RunsAlone {σ : Type} (code : Code σ) (f : Callable) : Prop :=
  ∃ body, code.bodies[f.body]? = some (.program body) ∧ ∀ depth args w o w',
    Machine.runProgram code (Machine.call code depth) (body args) w = some (o, w') →
      w'.executions f.body = w.executions f.body

/-- The function has a body of its own, which neither comes back to itself nor touches memoizer `i`. -/
def Code.RunsApart {σ : Type} (code : Code σ) (f : Callable) (i : Nat) : Prop :=
  ∃ body, code.bodies[f.body]? = some (.program body) ∧ ∀ depth args w o w',
    Machine.runProgram code (Machine.call code depth) (body args) w = some (o, w') →
      w'.standing i f.body = w.standing i f.body

theorem Code.RunsApart.runsAlone {σ : Type} {code : Code σ} {f : Callable} {i : Nat}
    (hf : code.RunsApart f i) : code.RunsAlone f := by
  obtain ⟨body, hbody, hapart⟩ := hf
  refine ⟨body, hbody, fun depth args w o w' hrun => ?_⟩
  exact (World.standing_eq_iff.mp (hapart depth args w o w' hrun)).2.2

/-- A call of a function that runs alone executes its body once. -/
theorem Machine.executions_of_runsAlone {σ : Type} {code : Code σ} {f : Callable}
    (hf : code.RunsAlone f) (depth : Nat) (args : Key) (w w' : World σ) (outcome : Outcome)
    (hrun : call code depth f args w = some (outcome, w')) :
    w'.executions f.body = w.executions f.body ++ [args] := by
  obtain ⟨body, hbody, halone⟩ := hf
  obtain ⟨inner, rfl, hprogram⟩ := runProgram_of_call hbody depth args w w' outcome hrun
  rw [halone inner args _ outcome w' hprogram, World.executions_record]
  simp [Entry.startOf]

end RuntimeContracts
