import RuntimeContracts.Proofs.Machine.Evolution

/-!
Worlds in the middle of a run. A run that has begun in one world comes to another by what it has done to its end,
and by calls that it has entered and not left again; whether it will ever come to its own end does not matter. All
calls that a run makes are made in such worlds. On its way to them the cache of a memoizer goes through traces.
-/
namespace RuntimeContracts

variable {σ α β : Type}

namespace World

/-- A run that has begun in the first world may be in the second, with calls still in progress. -/
inductive Underway (code : Code σ) : World σ → World σ → Prop
  | here (w : World σ) : Underway code w w
  | after {w w₁ w₂ : World σ} (h : Course code w w₁) (later : Underway code w₁ w₂) : Underway code w w₂
  | within {w w₁ : World σ} (names : List String) (inside : Underway code (w.withActive names) w₁) :
      Underway code w w₁
  | missed {w w₁ : World σ} {j : Nat} {m : Memoizer} (hm : code.memoizers[j]? = some m) (args : Key)
      (hnone : (w.cache j).lookup args = none) (inside : Underway code (w.missing j m args) w₁) :
      Underway code w w₁

variable {code : Code σ} {w w₁ w₂ : World σ}

/-- A moment of a run that begins at a moment of another one is a moment of the latter. -/
theorem Underway.trans (h : Underway code w w₁) (h' : Underway code w₁ w₂) : Underway code w w₂ := by
  induction h with
  | here w => exact h'
  | after hcourse _ ih => exact .after hcourse (ih h')
  | within names _ ih => exact .within names (ih h')
  | missed hm args hnone _ ih => exact .missed hm args hnone (ih h')

theorem Underway.course (h : Underway code w w₁) (h' : Course code w₁ w₂) : Underway code w w₂ :=
  h.trans (.after h' (.here w₂))

/-- A call of another memoizer that has been entered leaves the cache and its steps alone, and one of this
memoizer is left open: so what has become of the cache is by an open trace. -/
theorem Underway.exists_openTrace (h : Underway code w w₁) {i : Nat} {m : Memoizer}
    (hm : code.memoizers[i]? = some m) :
    ∃ steps, w₁.steps i = w.steps i ++ steps ∧ OpenTrace m.policy (w.cache i) steps (w₁.cache i) := by
  induction h with
  | here w => exact ⟨[], (List.append_nil _).symm, .closed (.nil _)⟩
  | after hcourse _ ih =>
    obtain ⟨steps, hsteps, htrace⟩ := (hcourse.evolves i).traced m hm
    obtain ⟨steps', hsteps', htrace'⟩ := ih
    refine ⟨steps ++ steps', ?_, .after htrace htrace'⟩
    rw [hsteps', hsteps, List.append_assoc]
  | within names _ ih => exact ih
  | @missed w w₁ j m' hm' args hnone _ ih =>
    obtain ⟨steps, hsteps, htrace⟩ := ih
    by_cases hj : j = i
    · subst j
      obtain rfl : m = m' := Option.some.inj (hm.symm.trans hm')
      refine ⟨.called args :: .missed args :: steps, ?_, .inside args hnone htrace⟩
      rw [hsteps]
      simp [missing]
    · refine ⟨steps, ?_, htrace⟩
      rw [hsteps]
      simp [missing, steps_note_of_ne, hj]

end World

namespace Machine

/-- Calls that go as the code has it down to a depth, and from there on as `beyond` has it. -/
def callOnto (code : Code σ) (beyond : Caller σ) : (depth : Nat) → Caller σ
  | 0 => beyond
  | depth + 1 => callInto code (callOnto code beyond depth)

/-- Whatever the calls beyond may be, if they take courses so do those that lead to them. -/
theorem courses_callOnto {code : Code σ} {beyond : Caller σ}
    (hbeyond : ∀ f args, Courses code (beyond f args)) (depth : Nat) (f : Callable) (args : Key) :
    Courses code (callOnto code beyond depth f args) := by
  induction depth generalizing f args with
  | zero => exact hbeyond f args
  | succ depth ih => exact courses_callInto code ih f args

/-- At their depth the calls of the code are those without any beyond. -/
theorem callOnto_call (code : Code σ) (inner depth : Nat) :
    callOnto code (call code inner) depth = call code (inner + depth) := by
  induction depth with
  | zero => rfl
  | succ depth ih =>
    rw [callOnto, ih]
    rfl

def alongside (code : Code σ) (origin : World σ) : Simulation (Machine σ) (Machine σ) where
  Rel x y := Courses code x ∧ ∀ w, origin.Underway code w → y w = x w
  rel_pure a := ⟨courses_pure a, fun _ _ => rfl⟩
  rel_bind := by
    intro α β x y k l hx hk
    refine ⟨courses_bind hx.1 fun a => (hk a).1, fun w hw => ?_⟩
    rw [bind_apply, bind_apply, hx.2 w hw]
    cases hrun : x w with
    | none => rfl
    | some r => exact (hk r.1).2 r.2 (hw.course (hx.1 w r.1 r.2 hrun))

section Alongside

variable {code : Code σ} {origin : World σ}

theorem alongside_self {x : Machine σ α} (h : Courses code x) : (alongside code origin).Rel x x :=
  ⟨h, fun _ _ => rfl⟩

theorem alongside_within (name : String) {x y : Machine σ α} (h : (alongside code origin).Rel x y) :
    (alongside code origin).Rel (within name x) (within name y) := by
  refine ⟨courses_within name h.1, fun w hw => ?_⟩
  have hinside : origin.Underway code (w.withActive (name :: w.active)) := hw.trans (.within _ (.here _))
  rw [within_apply, within_apply, h.2 _ hinside]

def checkingAlongside (code : Code σ) (origin : World σ) : Checking σ :=
  .uniform (alongside code origin) (fun name _ _ h => alongside_within name h)
    fun event h => alongside_self (courses_record event h)

variable {call call' : Caller σ} (hcall : ∀ f args, Courses code (call f args))
  (hsame : ∀ f args w, origin.Underway code w → call' f args w = call f args w)

include hcall hsame

theorem alongside_call (f : Callable) (args : Key) :
    (alongside code origin).Rel (call f args) (call' f args) :=
  ⟨hcall f args, hsame f args⟩

theorem alongside_fits (s : Spec) (arg : Option Value) :
    (alongside code origin).Rel (fits call s arg) (fits call' s arg) :=
  (checkingAlongside code origin).rel_fits (alongside_call hcall hsame) s arg

theorem alongside_callValidated (v : Validated) (args : Key) :
    (alongside code origin).Rel (callValidated call v args) (callValidated call' v args) :=
  (checkingAlongside code origin).rel_callValidated (alongside_call hcall hsame) v args

theorem alongside_callMemoized (j : Nat) (args : Key) :
    (alongside code origin).Rel (callMemoized code call j args) (callMemoized code call' j args) := by
  refine ⟨courses_callMemoized hcall j args, fun w hw => ?_⟩
  cases hm : code.memoizers[j]? with
  | none => rw [callMemoized_eq_none code call j args w hm, callMemoized_eq_none code call' j args w hm]
  | some m =>
    rw [callMemoized_eq code call j m args w hm, callMemoized_eq code call' j m args w hm]
    cases hlookup : (w.cache j).lookup args with
    | some v => rfl
    | none =>
      have hinside : origin.Underway code (w.missing j m args) := hw.trans (.missed hm args hlookup (.here _))
      simp only [hsame m.function args _ hinside]

theorem alongside_answer (r : Request σ) :
    (alongside code origin).Rel (answer code call r) (answer code call' r) := by
  cases r with
  | call f args => exact alongside_call hcall hsame f args
  | fits s arg => exact alongside_fits hcall hsame s arg
  | callValidated v args => exact alongside_callValidated hcall hsame v args
  | callMemoized j args => exact alongside_callMemoized hcall hsame j args
  | read => exact alongside_self (courses_answer hcall .read)
  | write s => exact alongside_self (courses_answer hcall (.write s))
  | fresh => exact alongside_self (courses_answer hcall .fresh)
  | lookup j args => exact alongside_self (courses_answer hcall (.lookup j args))
  | store j args v => exact alongside_self (courses_answer hcall (.store j args v))
  | clear j => exact alongside_self (courses_answer hcall (.clear j))
  | size j => exact alongside_self (courses_answer hcall (.size j))
  | complain e => exact alongside_self (courses_answer hcall (.complain e))

/-- A program does the same with calls that do the same wherever it may be. -/
theorem alongside_runProgram (p : Program σ α) :
    (alongside code origin).Rel (runProgram code call p) (runProgram code call' p) := by
  induction p with
  | done a => exact alongside_self (courses_pure a)
  | ask r next ih => exact (alongside code origin).rel_bind (alongside_answer hcall hsame r) ih

theorem alongside_runBody (f : Callable) (args : Key) (body : Body σ) :
    (alongside code origin).Rel (runBody code call f args body) (runBody code call' f args body) := by
  cases body with
  | program run =>
    exact (alongside code origin).rel_bind (alongside_self (courses_record (.started f.body args) rfl))
      fun _ => alongside_runProgram hcall hsame (run args)
  | validated v => exact alongside_callValidated hcall hsame v args
  | memoized j => exact alongside_callMemoized hcall hsame j args

theorem callOnto_eq_of_underway (depth : Nat) (f : Callable) (args : Key) (w : World σ)
    (hw : origin.Underway code w) : callOnto code call' depth f args w = callOnto code call depth f args w := by
  induction depth generalizing f args w with
  | zero => exact hsame f args w hw
  | succ depth ih =>
    simp only [callOnto, callInto]
    cases code.bodies[f.body]? with
    | none => rfl
    | some body => exact (alongside_runBody (courses_callOnto hcall depth) ih f args body).2 w hw

/-- A run calls functions only where it is under way: what calls would do elsewhere makes no difference, at
whatever depth. -/
theorem runProgram_eq_of_underway (depth : Nat) (p : Program σ α) :
    runProgram code (callOnto code call' depth) p origin = runProgram code (callOnto code call depth) p origin :=
  (alongside_runProgram (courses_callOnto hcall depth)
    (callOnto_eq_of_underway hcall hsame depth) p).2 origin (.here origin)

end Alongside

end Machine

end RuntimeContracts
