import RuntimeContracts.Proofs.Cache.Trace

/-!
The executions of memoized bodies in a trace. An execution starts when a call misses and ends when the
callable answers. The executions in progress form a stack, since a body that calls its own memoizer ends
after that call does. A call turns out to be a hit or a start at once, and an answer that is a value is
stored before anything else happens.
-/
namespace RuntimeContracts.Executions

def shift (stack : List Key) : CacheStep → List Key
  | .missed key => key :: stack
  | .answered _ _ => stack.tail
  | _ => stack

def running (stack : List Key) (steps : List CacheStep) : List Key := steps.foldl shift stack

/-- Whether a step may come here, with these executions in progress and these steps after it. -/
def Fits (stack : List Key) (rest : List CacheStep) : CacheStep → Prop
  | .called key => [.missed key] <+: rest ∨ ∃ v, [.hit key v] <+: rest
  | .answered key (.ok v) => stack.head? = some key ∧
      ∃ (gone : List Key) (isNew : Bool),
        gone.map CacheStep.evicted ++ [.stored key v isNew] <+: rest
  | .answered key (.error _) => stack.head? = some key
  | _ => True

def Orderly : List Key → List CacheStep → Prop
  | _, [] => True
  | stack, s :: rest => Fits stack rest s ∧ Orderly (shift stack s) rest

theorem running_append (stack : List Key) (steps steps' : List CacheStep) :
    running stack (steps ++ steps') = running (running stack steps) steps' :=
  List.foldl_append

/-- A step that may come here may do so whatever else comes later. -/
theorem fits_append (stack : List Key) (rest rest' : List CacheStep) (s : CacheStep)
    (h : Fits stack rest s) : Fits stack (rest ++ rest') s := by
  have hlonger : rest <+: rest ++ rest' := List.prefix_append rest rest'
  cases s with
  | called key =>
    rcases h with hmissed | ⟨v, hhit⟩
    · exact Or.inl (hmissed.trans hlonger)
    · exact Or.inr ⟨v, hhit.trans hlonger⟩
  | answered key outcome =>
    cases outcome with
    | error e => exact h
    | ok v =>
      obtain ⟨htop, gone, isNew, hstored⟩ := h
      exact ⟨htop, gone, isNew, hstored.trans hlonger⟩
  | _ => trivial

theorem orderly_append (stack : List Key) (steps steps' : List CacheStep)
    (h : Orderly stack steps) (h' : Orderly (running stack steps) steps') :
    Orderly stack (steps ++ steps') := by
  induction steps generalizing stack with
  | nil => exact h'
  | cons s rest ih =>
    obtain ⟨hfits, hrest⟩ := h
    exact ⟨fits_append stack rest steps' s hfits, ih (shift stack s) hrest h'⟩

/-- In an orderly sequence every step fits in where it stands. -/
theorem Orderly.fits {stack : List Key} {steps : List CacheStep} (h : Orderly stack steps)
    (done : List CacheStep) (s : CacheStep) (rest : List CacheStep)
    (hsplit : steps = done ++ s :: rest) : Fits (running stack done) rest s := by
  induction done generalizing stack steps with
  | nil =>
    subst hsplit
    exact h.1
  | cons t done ih =>
    subst hsplit
    exact ih h.2 rfl

/-- A store touches none of the executions in progress. -/
theorem orderly_storing (stack : List Key) (policy : CachePolicy) (c : Cache) (key : Key)
    (v : Value) : Orderly stack (c.storing policy key v) ∧
      running stack (c.storing policy key v) = stack := by
  unfold Cache.storing
  induction (c.store policy key v).evicted with
  | nil => exact ⟨⟨trivial, trivial⟩, rfl⟩
  | cons k gone ih => exact ⟨⟨trivial, ih.1⟩, ih.2⟩

/-- A trace is orderly whatever is in progress around it, and ends all that it starts. -/
theorem orderly_of_trace {policy : CachePolicy} {c c' : Cache} {steps : List CacheStep}
    (h : Trace policy c steps c') (stack : List Key) :
    Orderly stack steps ∧ running stack steps = stack := by
  induction h generalizing stack with
  | nil => exact ⟨trivial, rfl⟩
  | @append _ _ _ steps steps' _ _ ih ih' =>
    obtain ⟨hfirst, hbetween⟩ := ih stack
    obtain ⟨hsecond, hafter⟩ := ih' stack
    refine ⟨orderly_append stack steps steps' hfirst ?_, ?_⟩
    · rwa [hbetween]
    · rw [running_append, hbetween, hafter]
  | looked => exact ⟨⟨trivial, trivial⟩, rfl⟩
  | measured => exact ⟨⟨trivial, trivial⟩, rfl⟩
  | cleared => exact ⟨⟨trivial, trivial⟩, rfl⟩
  | stored c key v => exact orderly_storing stack policy c key v
  | hit c key v => exact ⟨⟨Or.inr ⟨v, List.prefix_rfl⟩, trivial, trivial⟩, rfl⟩
  | @failed c c' steps key e _ _ ih =>
    obtain ⟨hinside, hstack⟩ := ih (key :: stack)
    have hcalled : Fits stack (.missed key :: (steps ++ [.answered key (.error e)])) (.called key) :=
      Or.inl ⟨_, rfl⟩
    have hanswered : Orderly (running (key :: stack) steps) [.answered key (.error e)] := by
      rw [hstack]
      exact ⟨rfl, trivial⟩
    refine ⟨⟨hcalled, trivial, orderly_append _ steps _ hinside hanswered⟩, ?_⟩
    change running (key :: stack) (steps ++ _) = stack
    rw [running_append, hstack]
    rfl
  | @succeeded c c' steps key v _ _ ih =>
    obtain ⟨hinside, hstack⟩ := ih (key :: stack)
    obtain ⟨hstoring, hstored⟩ := orderly_storing stack policy c' key v
    have hcalled : Fits stack
        (.missed key :: (steps ++ .answered key (.ok v) :: c'.storing policy key v))
        (.called key) := Or.inl ⟨_, rfl⟩
    have hanswered : Orderly (running (key :: stack) steps)
        (.answered key (.ok v) :: c'.storing policy key v) := by
      rw [hstack]
      exact ⟨⟨rfl, _, _, List.prefix_rfl⟩, hstoring⟩
    refine ⟨⟨hcalled, trivial, orderly_append _ steps _ hinside hanswered⟩, ?_⟩
    change running (key :: stack) (steps ++ _) = stack
    rw [running_append, hstack]
    exact hstored

/-- An open trace is orderly, too: the calls that it leaves open have missed. -/
theorem orderly_of_openTrace {policy : CachePolicy} {c c' : Cache} {steps : List CacheStep}
    (h : OpenTrace policy c steps c') (stack : List Key) : Orderly stack steps := by
  induction h generalizing stack with
  | closed h => exact (orderly_of_trace h stack).1
  | @after _ _ _ steps steps' h _ ih =>
    obtain ⟨hfirst, hbetween⟩ := orderly_of_trace h stack
    refine orderly_append stack steps steps' hfirst ?_
    rw [hbetween]
    exact ih stack
  | @inside _ _ steps key _ _ ih =>
    have hcalled : Fits stack (.missed key :: steps) (.called key) := Or.inl ⟨steps, rfl⟩
    exact ⟨hcalled, trivial, ih (key :: stack)⟩

end RuntimeContracts.Executions
