import RuntimeContracts.Proofs.Machine.Checks
import RuntimeContracts.Proofs.Machine.Coupling

/-!
Depth. A call that has a result at one depth has it at every greater one, so that a computation ends with
a result when it has it from some depth on. A computation settles on an answer if it ends with it in
every world and leaves a chosen view of the world as it was; the checks of a signature settle if the
predicates in it do.
-/
namespace RuntimeContracts

def Outcome.passes (outcome : Outcome) (v : Value) : Bool :=
  match outcome with
  | .ok u => u.same v
  | .error _ => false

def World.recordRaised {σ : Type} (w : World σ) (q : Callable) : Outcome → World σ
  | .ok _ => w
  | .error e => w.record (.predicateRaised q.name e)

theorem World.cache_recordRaised {σ : Type} (w : World σ) (i : Nat) (q : Callable) (outcome : Outcome) :
    (w.recordRaised q outcome).cache i = w.cache i := by
  cases outcome <;> rfl

section View

variable {σ γ : Type} {view : World σ → γ}

theorem World.view_recordRaised {q : Callable}
    (hraised : ∀ w e, view (w.record (.predicateRaised q.name e)) = view w) (w : World σ)
    (outcome : Outcome) : view (w.recordRaised q outcome) = view w := by
  cases outcome with
  | ok u => rfl
  | error e => exact hraised w e

variable {i : Nat} {m : Memoizer} (hcalls : ∀ w names, view (World.withActive w names) = view w)
  (hnotes : ∀ w step, view (World.note w i m step) = view w) (w : World σ) (args : Key)

include hcalls hnotes

/-- A view without the calls in progress and the steps of a cache does not see it being asked. -/
theorem World.view_missing : view (w.missing i m args) = view w := by
  rw [missing, hnotes, hnotes, hcalls]

theorem World.view_hitting (v : Value) : view (w.hitting i m args v) = view w := by
  rw [hitting, hcalls, hnotes, hnotes, hcalls]

end View

namespace Machine

variable {σ α β γ : Type}

def Refines (x y : Machine σ α) : Prop := ∀ w r, x w = some r → y w = some r

def refining : Simulation (Machine σ) (Machine σ) where
  Rel := Refines
  rel_pure _ _ _ h := h
  rel_bind := by
    intro α β x y k l hx hk w r hrun
    obtain ⟨⟨a, w₁⟩, hx', hk'⟩ := Option.bind_eq_some_iff.mp hrun
    exact Option.bind_eq_some_iff.mpr ⟨(a, w₁), hx w _ hx', hk a w₁ r hk'⟩

def refinement : Coupling σ where
  outer := refining
  inner := refining
  inner_of_outer h := h
  rel_within := by
    intro α name x y h w r hrun
    rw [within_apply] at hrun ⊢
    obtain ⟨a, hx, rfl⟩ := Option.map_eq_some_iff.mp hrun
    exact Option.map_eq_some_iff.mpr ⟨a, h _ a hx, rfl⟩
  rel_onVisible _ _ _ h := h
  rel_record _ _ _ _ h := h
  rel_ignore _ _ _ h := h
  rel_none _ _ _ h := h

/-- More depth keeps every result. -/
theorem call_mono (code : Code σ) {depth depth' : Nat} (h : depth ≤ depth') (f : Callable)
    (args : Key) : Refines (call code depth f args) (call code depth' f args) := by
  obtain ⟨more, rfl⟩ := Nat.exists_eq_add_of_le h
  refine refinement.rel_call code more ?_ depth f args
  intro g args' w r hrun
  cases hrun

/-- From some depth on the computation has this result. -/
def Ends (act : Nat → Machine σ α) (w : World σ) (a : α) (w' : World σ) : Prop :=
  ∃ enough, ∀ depth, enough ≤ depth → act depth w = some (a, w')

def Stalls (act : Nat → Machine σ α) (w : World σ) : Prop :=
  ∃ enough, ∀ depth, enough ≤ depth → act depth w = none

/-- A call without a result at great depths has none at any. -/
theorem Stalls.call_eq_none {code : Code σ} {f : Callable} {args : Key} {w : World σ}
    (h : Stalls (fun depth => call code depth f args) w) (depth : Nat) :
    call code depth f args w = none := by
  obtain ⟨enough, hnone⟩ := h
  cases hresult : call code depth f args w with
  | none => rfl
  | some r =>
    have hlater := call_mono code (by omega : depth ≤ max depth enough) f args w r hresult
    exact hlater.symm.trans (hnone _ (by omega))

variable {act act' : Nat → Machine σ α} {w w₁ w₂ : World σ} {a : α}

theorem ends_of_eq {x : Machine σ α} (h : x w = some (a, w₁)) : Ends (fun _ => x) w a w₁ :=
  ⟨0, fun _ _ => h⟩

/-- A result at one depth is the result at every greater one. -/
theorem ends_of_call (code : Code σ) {depth : Nat} {f : Callable} {args : Key} {outcome : Outcome}
    (h : call code depth f args w = some (outcome, w₁)) :
    Ends (fun depth => call code depth f args) w outcome w₁ :=
  ⟨depth, fun _ hle => call_mono code hle f args w _ h⟩

/-- A computation ends in one way only. -/
theorem Ends.world_eq {a' : α} (h : Ends act w a w₁) (h' : Ends act w a' w₂) : w₁ = w₂ := by
  obtain ⟨enough, hact⟩ := h
  obtain ⟨enough', hact'⟩ := h'
  have hrun := hact (max enough enough') (by omega)
  have hrun' := hact' (max enough enough') (by omega)
  exact congrArg Prod.snd (Option.some.inj (hrun.symm.trans hrun'))

/-- One computation after another ends if both do. -/
theorem Ends.bind {k : α → Nat → Machine σ β} {b : β} (h : Ends act w a w₁)
    (hk : Ends (k a) w₁ b w₂) : Ends (fun depth => act depth >>= fun a => k a depth) w b w₂ := by
  obtain ⟨enough, hact⟩ := h
  obtain ⟨enough', hrest⟩ := hk
  refine ⟨max enough enough', fun depth hdepth => ?_⟩
  have hfirst := hact depth (by omega)
  have hsecond := hrest depth (by omega)
  change (act depth >>= fun a => k a depth) w = _
  rw [bind_apply, hfirst]
  exact hsecond

theorem Ends.within (name : String) (h : Ends act (w.withActive (name :: w.active)) a w₁) :
    Ends (fun depth => within name (act depth)) w a (w₁.withActive w.active) := by
  obtain ⟨enough, hact⟩ := h
  refine ⟨enough, fun depth hdepth => ?_⟩
  change Machine.within name (act depth) w = _
  rw [within_apply, hact depth hdepth]
  rfl

/-- One more level of calls needs one more depth. -/
theorem Ends.deeper (h : Ends act w a w₁) (hdeeper : ∀ depth, act' (depth + 1) = act depth) :
    Ends act' w a w₁ := by
  obtain ⟨enough, hact⟩ := h
  refine ⟨enough + 1, fun depth hdepth => ?_⟩
  obtain ⟨inner, rfl⟩ : ∃ inner, depth = inner + 1 := ⟨depth - 1, by omega⟩
  rw [hdeeper]
  exact hact inner (by omega)

theorem Stalls.deeper (h : Stalls act w) (hdeeper : ∀ depth, act' (depth + 1) = act depth) :
    Stalls act' w := by
  obtain ⟨enough, hact⟩ := h
  refine ⟨enough + 1, fun depth hdepth => ?_⟩
  obtain ⟨inner, rfl⟩ : ∃ inner, depth = inner + 1 := ⟨depth - 1, by omega⟩
  rw [hdeeper]
  exact hact inner (by omega)

section Memoized

variable {code : Code σ} {i : Nat} {m : Memoizer} (hm : code.memoizers[i]? = some m) {f : Callable}
  (hf : code.bodies[f.body]? = some (.memoized i)) {args : Key}

include hm hf

/-- A call of a memoized function whose result is in the cache. -/
theorem ends_hit {v : Value} (hlookup : (w.cache i).lookup args = some v) :
    Ends (fun depth => call code depth f args) w (.ok v) (w.hitting i m args v) := by
  have hrun : call code 1 f args w = some (.ok v, w.hitting i m args v) := by
    rw [call_memoized code i args 0 f hf, callMemoized_eq code _ i m args w hm, hlookup]
  exact ends_of_call code hrun

/-- A call of a memoized function whose result is not in the cache asks the function behind it. -/
theorem ends_missed {outcome : Outcome} (hlookup : (w.cache i).lookup args = none)
    (hasked : Ends (fun depth => call code depth m.function args) (w.missing i m args) outcome w₁) :
    Ends (fun depth => call code depth f args) w outcome
      ((w₁.concluding i m args outcome).withActive w.active) := by
  obtain ⟨depth, hasked⟩ := hasked
  have hanswer := hasked depth (Nat.le_refl depth)
  have hrun : call code (depth + 1) f args w =
      some (outcome, (w₁.concluding i m args outcome).withActive w.active) := by
    rw [call_memoized code i args depth f hf, callMemoized_eq code _ i m args w hm, hlookup]
    simp only [hanswer, Option.map_some]
  exact ends_of_call code hrun

end Memoized

/-- The computation ends with this answer whatever the world, and leaves the view of it. -/
def Settled (view : World σ → γ) (act : Nat → Machine σ α) (a : α) : Prop :=
  ∀ w, ∃ w', Ends act w a w' ∧ view w' = view w

def settling (view : World σ → γ) : Simulation (ReaderT Nat (Machine σ)) Id where
  Rel act a := Settled view act a
  rel_pure a w := ⟨w, ends_of_eq rfl, rfl⟩
  rel_bind := by
    intro α β act a k l hact hk w
    obtain ⟨w₁, hends, hview⟩ := hact w
    obtain ⟨w₂, hends', hview'⟩ := hk a w₁
    exact ⟨w₂, hends.bind hends', hview'.trans hview⟩

def atDepth (depth : Nat) : Simulation (ReaderT Nat (Machine σ)) (Machine σ) where
  Rel act x := act depth = x
  rel_pure _ := rfl
  rel_bind := by
    rintro α β act x k l rfl hk
    exact congrArg (act depth >>= ·) (funext hk)

section Deep

variable (code : Code σ)

def deepPasses (q : Callable) (v : Value) : ReaderT Nat (Machine σ) Bool := fun depth =>
  passes (call code depth) q v

def deepFits (s : Spec) (arg : Option Value) : ReaderT Nat (Machine σ) Bool :=
  s.fitsM (deepPasses code) arg

theorem deepFits_apply (depth : Nat) (s : Spec) (arg : Option Value) :
    deepFits code s arg depth = fits (call code depth) s arg :=
  (atDepth depth).rel_fitsM (passes (call code depth)) s arg fun _ _ _ => rfl

variable {code} {view : World σ → γ} {ask : Callable → Value → Bool}

/-- A question ends when the call of the predicate does. -/
theorem ends_deepPasses {q : Callable} {v : Value} {outcome : Outcome} {w w₁ : World σ}
    (h : Ends (fun depth => call code depth q [v]) w outcome w₁) :
    Ends (deepPasses code q v) w (outcome.passes v) (w₁.recordRaised q outcome) := by
  cases outcome with
  | ok u => exact h.bind (ends_of_eq rfl)
  | error e => exact h.bind (ends_of_eq rfl)

/-- A question settles if the call of the predicate does. -/
theorem settled_deepPasses {q : Callable} {v : Value} {outcome : Outcome}
    (hraised : ∀ w e, view (w.record (.predicateRaised q.name e)) = view w)
    (h : Settled view (fun depth => call code depth q [v]) outcome) :
    Settled view (deepPasses code q v) (outcome.passes v) := by
  intro w
  obtain ⟨w₁, hends, hview⟩ := h w
  exact ⟨_, ends_deepPasses hends, (World.view_recordRaised hraised w₁ outcome).trans hview⟩

/-- The call of a function whose program is at its end at once settles. -/
theorem settled_call_done {f : Callable} {args : Key} {body : Key → Program σ Outcome}
    {outcome : Outcome} (hbody : code.bodies[f.body]? = some (.program body))
    (hdone : body args = .done outcome)
    (hstarted : ∀ w, view (w.record (.started f.body args)) = view w) :
    Settled view (fun depth => call code depth f args) outcome := by
  intro w
  have hrun : call code 1 f args w = some (outcome, w.record (.started f.body args)) := by
    rw [call_program code args 0 f body hbody, hdone]
    rfl
  exact ⟨_, ends_of_call code hrun, hstarted w⟩

/-- A match settles if the predicates of the spec do. -/
theorem settled_deepFits (s : Spec) (arg : Option Value)
    (h : ∀ q ∈ s.predicates, ∀ v, Settled view (deepPasses code q v) (ask q v)) :
    Settled view (deepFits code s arg) (s.fits ask arg) :=
  (settling view).rel_fitsM (fun q v => pure (ask q v)) s arg h

end Deep

end Machine

/-- The predicates of the signature come to an answer that depends on their argument alone, and leave the
view of the world as it is. -/
def Code.Decides {σ γ : Type} (code : Code σ) (s : Signature) (ask : Callable → Value → Bool)
    (view : World σ → γ) : Prop :=
  ∀ q, s.Mentions q → ∀ v, Machine.Settled view (Machine.deepPasses code q v) (ask q v)

/-- Predicates whose programs are at an end at once decide. -/
theorem Code.decides_of_done {σ : Type} {code : Code σ} {s : Signature}
    (outcome : Callable → Value → Outcome) (h : ∀ q, s.Mentions q → ∃ body,
      code.bodies[q.body]? = some (.program body) ∧ ∀ v, body [v] = .done (outcome q v)) :
    code.Decides s (fun q v => (outcome q v).passes v) (fun _ => ()) := by
  intro q hq v
  obtain ⟨body, hbody, hdone⟩ := h q hq
  have hcall : Machine.Settled (fun _ => ()) (fun depth => Machine.call code depth q [v])
      (outcome q v) := Machine.settled_call_done hbody (hdone v) fun _ => rfl
  exact Machine.settled_deepPasses (fun _ _ => rfl) hcall

namespace Machine

variable {σ γ : Type} {code : Code σ} {s : Signature} {ask : Callable → Value → Bool}
  {view : World σ → γ}

/-- The check of the arguments settles if the predicates decide. -/
theorem settled_checkArgs (h : code.Decides s ask view) (f : Callable) (args : Key) :
    Settled view (fun depth => s.checkArgs (fits (call code depth)) f args)
      (s.argsViolation ask f args) := by
  have hdeep : Settled view (s.checkArgs (deepFits code) f args) (s.argsViolation ask f args) :=
    (settling view).rel_checkArgs (fun t arg => pure (t.fits ask arg)) s f args
      fun e he t ht arg => settled_deepFits t arg fun q hq => h q (Or.inl ⟨e, he, t, ht, hq⟩)
  have heq (depth : Nat) :
      s.checkArgs (deepFits code) f args depth = s.checkArgs (fits (call code depth)) f args :=
    (atDepth depth).rel_checkArgs (fits (call code depth)) s f args
      fun _ _ t _ arg => deepFits_apply code depth t arg
  exact funext heq ▸ hdeep

theorem settled_checkReturn (h : code.Decides s ask view) (f : Callable) (result : Value) :
    Settled view (fun depth => s.checkReturn (fits (call code depth)) f result)
      (s.resultViolation ask f result) := by
  have hdeep : Settled view (s.checkReturn (deepFits code) f result) (s.resultViolation ask f result) :=
    (settling view).rel_checkReturn (fun t arg => pure (t.fits ask arg)) s f result
      fun t ht => settled_deepFits t (some result) fun q hq => h q (Or.inr ⟨t, ht, hq⟩)
  have heq (depth : Nat) :
      s.checkReturn (deepFits code) f result depth = s.checkReturn (fits (call code depth)) f result :=
    (atDepth depth).rel_checkReturn (fits (call code depth)) s f result
      fun t _ => deepFits_apply code depth t (some result)
  exact funext heq ▸ hdeep

def running (code : Code σ) (call : Caller σ) : Simulation (Program σ) (Machine σ) where
  Rel p x := runProgram code call p = x
  rel_pure _ := rfl
  rel_bind := by
    rintro α β p x k l rfl hk
    rw [runProgram_bind]
    exact congrArg (runProgram code call p >>= ·) (funext hk)

theorem runProgram_fits (code : Code σ) (call : Caller σ) (t : Spec) (arg : Option Value) :
    runProgram code call (Program.fits t arg) = fits call t arg :=
  bind_pure (fits call t arg)

/-- A program that asks for the check of arguments has them checked. -/
theorem runProgram_checkArgs (code : Code σ) (call : Caller σ) (s : Signature) (f : Callable)
    (args : Key) :
    runProgram code call (Program.checkArgs s f args) = s.checkArgs (fits call) f args :=
  (running code call).rel_checkArgs (fits call) s f args
    fun _ _ t _ arg => runProgram_fits code call t arg

theorem runProgram_checkReturn (code : Code σ) (call : Caller σ) (s : Signature) (f : Callable)
    (result : Value) :
    runProgram code call (Program.checkReturn s f result) = s.checkReturn (fits call) f result :=
  (running code call).rel_checkReturn (fits call) s f result
    fun t _ => runProgram_fits code call t (some result)

end Machine

end RuntimeContracts
