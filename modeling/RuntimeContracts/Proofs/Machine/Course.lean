import RuntimeContracts.Proofs.Machine.Coupling

/-!
What a run can do to the world, said once. A course is made of single changes and of memoized calls, which
are brackets around the course of their callable; every computation of the machine takes a course, whatever
the bodies do and however deep the calls go. What all changes and brackets preserve is therefore preserved
by every run.
-/
namespace RuntimeContracts

variable {σ α β : Type}

namespace World

/-- A run may lead from the first world to the second. -/
inductive Course (code : Code σ) : World σ → World σ → Prop
  | refl (w : World σ) : Course code w w
  | trans {w w₁ w₂ : World σ} : Course code w w₁ → Course code w₁ w₂ → Course code w w₂
  | within {w w₁ : World σ} (names : List String) (inside : Course code (w.withActive names) w₁) :
      Course code w (w₁.withActive w.active)
  | recorded (w : World σ) (event : Event) (h : event.isAside) : Course code w (w.record event)
  | wrote (w : World σ) (s : σ) : Course code w { w with client := s }
  | fresh (w : World σ) : Course code w { w with nextIdentity := w.nextIdentity + 1 }
  | looked (w : World σ) {j : Nat} {m : Memoizer} (hm : code.memoizers[j]? = some m) (args : Key) :
      Course code w (w.note j m (.looked args ((w.cache j).lookup args)))
  | measured (w : World σ) {j : Nat} {m : Memoizer} (hm : code.memoizers[j]? = some m) :
      Course code w (w.note j m (.measured (w.cache j).size))
  | cleared (w : World σ) {j : Nat} {m : Memoizer} (hm : code.memoizers[j]? = some m) :
      Course code w ((w.setCache j Cache.empty).note j m (.cleared (w.cache j).size))
  | stored (w : World σ) {j : Nat} {m : Memoizer} (hm : code.memoizers[j]? = some m) (args : Key)
      (v : Value) : Course code w (w.storeIn j m args v)
  | hit (w : World σ) {j : Nat} {m : Memoizer} (hm : code.memoizers[j]? = some m) (args : Key) (v : Value)
      (hfound : (w.cache j).lookup args = some v) : Course code w (w.hitting j m args v)
  | missed (w w₁ : World σ) {j : Nat} {m : Memoizer} (hm : code.memoizers[j]? = some m) (args : Key)
      (outcome : Outcome) (hnone : (w.cache j).lookup args = none)
      (inside : Course code (w.missing j m args) w₁) :
      Course code w ((w₁.concluding j m args outcome).withActive w.active)

/-- Nothing is taken back from the journal. -/
theorem Course.grown {code : Code σ} {w w' : World σ} (h : Course code w w') :
    w.journal <:+ w'.journal := by
  induction h with
  | refl w => exact List.suffix_rfl
  | trans _ _ ih ih' => exact ih.trans ih'
  | within _ _ ih => exact ih
  | recorded w event _ => exact List.suffix_cons _ _
  | wrote w s => exact List.suffix_rfl
  | fresh w => exact List.suffix_rfl
  | @looked w j m _ args => exact journal_note w j m _
  | @measured w j m _ => exact journal_note w j m _
  | @cleared w j m _ => exact journal_note (w.setCache j Cache.empty) j m _
  | @stored w j m _ args v => exact journal_storeIn w j m args v
  | @hit w j m _ args v _ => exact journal_hitting w j m args v
  | @missed w w₁ j m _ args outcome _ _ ih =>
    exact ((journal_missing w j m args).trans ih).trans (journal_concluding w₁ j m args outcome)

@[simp] theorem nextIdentity_noteAll (w : World σ) (j : Nat) (m : Memoizer) (steps : List CacheStep) :
    (w.noteAll j m steps).nextIdentity = w.nextIdentity := by
  induction steps generalizing w with
  | nil => rfl
  | cons s rest ih => exact ih (w.note j m s)

@[simp] theorem nextIdentity_storeIn (w : World σ) (j : Nat) (m : Memoizer) (args : Key) (v : Value) :
    (w.storeIn j m args v).nextIdentity = w.nextIdentity :=
  nextIdentity_noteAll _ j m _

@[simp] theorem nextIdentity_concluding (w : World σ) (j : Nat) (m : Memoizer) (args : Key)
    (outcome : Outcome) : (w.concluding j m args outcome).nextIdentity = w.nextIdentity := by
  cases outcome with
  | error e => rfl
  | ok v => exact nextIdentity_storeIn _ j m args v

/-- An identity that has been handed out is never handed out again. -/
theorem Course.nextIdentity_le {code : Code σ} {w w' : World σ} (h : Course code w w') :
    w.nextIdentity ≤ w'.nextIdentity := by
  induction h with
  | trans _ _ ih ih' => exact Nat.le_trans ih ih'
  | within _ _ ih => exact ih
  | fresh w => exact Nat.le_succ _
  | @stored w j m _ args v => exact Nat.le_of_eq (nextIdentity_storeIn w j m args v).symm
  | @missed w w₁ j m _ args outcome _ _ ih =>
    exact Nat.le_trans ih (Nat.le_of_eq (nextIdentity_concluding w₁ j m args outcome).symm)
  | _ => exact Nat.le_refl _

end World

namespace Machine

def Courses (code : Code σ) (act : Machine σ α) : Prop :=
  ∀ w a w', act w = some (a, w') → World.Course code w w'

section Sequences

variable {code : Code σ}

theorem courses_pure (a : α) : Courses code (pure a : Machine σ α) := by
  intro w b w' h
  obtain ⟨rfl, rfl⟩ : a = b ∧ w = w' := by simpa [pure_apply] using h
  exact .refl w

theorem courses_bind {x : Machine σ α} {k : α → Machine σ β} (hx : Courses code x)
    (hk : ∀ a, Courses code (k a)) : Courses code (x >>= k) := by
  intro w b w' h
  obtain ⟨a, w₁, hx', hk'⟩ := bind_eq_some x k w w' b h
  exact (hx w a w₁ hx').trans (hk a w₁ b w' hk')

theorem courses_within (name : String) {act : Machine σ α} (h : Courses code act) :
    Courses code (within name act) := by
  intro w a w' hrun
  rw [within_apply] at hrun
  obtain ⟨r, hact, hr⟩ := Option.map_eq_some_iff.mp hrun
  obtain ⟨rfl, rfl⟩ := Prod.mk.inj hr
  exact .within _ (h _ r.1 r.2 hact)

theorem courses_record (event : Event) (h : event.isAside) :
    Courses code (record event : Machine σ Unit) := by
  intro w a w' hrun
  obtain rfl : w.record event = w' := congrArg Prod.snd (Option.some.inj hrun)
  exact .recorded w event h

/-- A direct use of a memoizer takes a course if it does so for a memoizer that there is. -/
theorem courses_memoizer (j : Nat) (k : Memoizer → Machine σ α)
    (h : ∀ m, code.memoizers[j]? = some m → Courses code (k m)) :
    Courses code (memoizer code j >>= k) := by
  intro w a w' hrun
  obtain ⟨m, w₁, hmem, hk⟩ := bind_eq_some _ k w w' a hrun
  obtain ⟨m', hm, hr⟩ := Option.map_eq_some_iff.mp hmem
  obtain ⟨rfl, rfl⟩ := Prod.mk.inj hr
  exact h m' hm w a w' hk

variable (code)

def coursing : Checking σ :=
  .uniform ⟨fun x _ => Courses code x, courses_pure, courses_bind⟩ (fun name _ _ h => courses_within name h)
    courses_record

end Sequences

section Calls

variable {code : Code σ} {call : Caller σ} (hcall : ∀ f args, Courses code (call f args))

include hcall

theorem courses_fits (s : Spec) (arg : Option Value) : Courses code (fits call s arg) := by
  have hcalls : ∀ f args, (coursing code).outer.Rel (call f args) (call f args) := hcall
  exact (coursing code).rel_fits hcalls s arg

theorem courses_callValidated (v : Validated) (args : Key) :
    Courses code (callValidated call v args) := by
  have hcalls : ∀ f args, (coursing code).outer.Rel (call f args) (call f args) := hcall
  exact (coursing code).rel_callValidated hcalls v args

/-- A call through a memoizer ends with its result from the cache or is a bracket around its callable. -/
theorem courses_callMemoized (j : Nat) (args : Key) : Courses code (callMemoized code call j args) := by
  intro w outcome w' hrun
  cases hm : code.memoizers[j]? with
  | none => rw [callMemoized_eq_none code call j args w hm] at hrun; cases hrun
  | some m =>
    rw [callMemoized_eq code call j m args w hm] at hrun
    cases hlookup : (w.cache j).lookup args with
    | some v =>
      rw [hlookup] at hrun
      obtain ⟨rfl, rfl⟩ := Prod.mk.inj (Option.some.inj hrun)
      exact .hit w hm args v hlookup
    | none =>
      rw [hlookup] at hrun
      obtain ⟨⟨answer, w₁⟩, hcalled, hr⟩ := Option.map_eq_some_iff.mp hrun
      obtain ⟨rfl, rfl⟩ := Prod.mk.inj hr
      exact .missed w w₁ hm args answer hlookup (hcall m.function args _ _ _ hcalled)

/-- Every answer to a request takes a course. -/
theorem courses_answer (r : Request σ) : Courses code (answer code call r) := by
  cases r with
  | read => intro w a w' hrun; cases hrun; exact .refl w
  | write s => intro w a w' hrun; cases hrun; exact .wrote w s
  | fresh => intro w a w' hrun; cases hrun; exact .fresh w
  | call f args => exact hcall f args
  | fits s arg => exact courses_fits hcall s arg
  | callValidated v args => exact courses_callValidated hcall v args
  | callMemoized j args => exact courses_callMemoized hcall j args
  | lookup j args =>
    refine courses_memoizer j _ fun m hm w a w' hrun => ?_
    obtain ⟨rfl, rfl⟩ := Prod.mk.inj (Option.some.inj hrun)
    exact .looked w hm args
  | store j args v =>
    refine courses_memoizer j _ fun m hm w a w' hrun => ?_
    rw [store_apply] at hrun
    obtain rfl : w.storeIn j m args v = w' := congrArg Prod.snd (Option.some.inj hrun)
    exact .stored w hm args v
  | clear j =>
    refine courses_memoizer j _ fun m hm w a w' hrun => ?_
    obtain rfl : (w.setCache j Cache.empty).note j m (.cleared (w.cache j).size) = w' :=
      congrArg Prod.snd (Option.some.inj hrun)
    exact .cleared w hm
  | size j =>
    refine courses_memoizer j _ fun m hm w a w' hrun => ?_
    obtain ⟨rfl, rfl⟩ := Prod.mk.inj (Option.some.inj hrun)
    exact .measured w hm
  | complain e => exact courses_record (.modeUnknown e) rfl

/-- Programs take a course if the functions that they call do. -/
theorem courses_runProgram_of_call (p : Program σ α) : Courses code (runProgram code call p) := by
  induction p with
  | done a => exact courses_pure a
  | ask r next ih => exact courses_bind (courses_answer hcall r) ih

theorem courses_runBody (f : Callable) (args : Key) (body : Body σ) :
    Courses code (runBody code call f args body) := by
  cases body with
  | program run =>
    exact courses_bind (courses_record (.started f.body args) rfl)
      fun _ => courses_runProgram_of_call hcall (run args)
  | validated v => exact courses_callValidated hcall v args
  | memoized j => exact courses_callMemoized hcall j args

end Calls

variable (code : Code σ)

def callInto (call : Caller σ) : Caller σ := fun f args =>
  match code.bodies[f.body]? with
  | none => fun _ => none
  | some body => runBody code call f args body

/-- A call with a result runs the body of its function. -/
theorem exists_body_of_callInto {call : Caller σ} {f : Callable} {args : Key} {w w' : World σ}
    {outcome : Outcome} (hrun : callInto code call f args w = some (outcome, w')) :
    ∃ body, code.bodies[f.body]? = some body ∧ runBody code call f args body w = some (outcome, w') := by
  unfold callInto at hrun
  cases hbody : code.bodies[f.body]? with
  | none =>
    rw [hbody] at hrun
    cases hrun
  | some body =>
    rw [hbody] at hrun
    exact ⟨body, rfl, hrun⟩

theorem courses_callInto {call : Caller σ} (hcall : ∀ f args, Courses code (call f args)) (f : Callable)
    (args : Key) : Courses code (callInto code call f args) := by
  intro w outcome w' hrun
  obtain ⟨body, -, hbody⟩ := exists_body_of_callInto code hrun
  exact courses_runBody hcall f args body w outcome w' hbody

/-- Every call takes a course, however deep it goes. -/
theorem courses_call (depth : Nat) (f : Callable) (args : Key) : Courses code (call code depth f args) := by
  induction depth generalizing f args with
  | zero =>
    intro w outcome w' hrun
    cases hrun
  | succ depth ih => exact courses_callInto code ih f args

theorem courses_runProgram (depth : Nat) (p : Program σ α) :
    Courses code (runProgram code (call code depth) p) :=
  courses_runProgram_of_call (courses_call code depth) p

end Machine

end RuntimeContracts
