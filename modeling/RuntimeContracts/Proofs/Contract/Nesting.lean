import RuntimeContracts.Proofs.Contract.Assembly
import RuntimeContracts.Proofs.Contract.Failures
import RuntimeContracts.Proofs.Signature.FirstViolation

/-!
Checks around checks. A function that guards another one stops the call with a mismatch of a parameter, or
asks the other one, once, and releases its answer or refuses it with a mismatch of the result. Enforcing a
signature around a guarding function makes a guarding function of the same name again, and adds to what is
guarded. So the checks of two signatures around each other guard what those of the merged signature do.
-/
namespace RuntimeContracts

variable {σ γ : Type}

structure Mismatch.AtParameter (e : Mismatch) (f : Callable) : Prop where
  function : e.function = f.name
  location : ∃ position, e.location = .parameter position (f.paramName? position)

structure Mismatch.AtResult (e : Mismatch) (f : Callable) : Prop where
  function : e.function = f.name
  location : e.location = .result

inductive Replies (f : Callable) (good : Value → Prop) : Outcome → Outcome → Prop
  | failed (e : CallError) : Replies f good (.error e) (.error e)
  | passed {v : Value} (hgood : good v) : Replies f good (.ok v) (.ok v)
  | refused {v : Value} {e : Mismatch} (hbad : ¬ good v) (he : e.AtResult f) :
      Replies f good (.ok v) (.error (.mismatch e))

/-- Calls of `g` with these arguments go to `f` if the arguments fit, and nowhere if they do not. The
reply is what `f` answers, unless this is a result that is not good. -/
structure Code.Guards (code : Code σ) (view : World σ → γ) (f g : Callable) (args : Key) (fit : Prop)
    (good : Value → Prop) : Prop where
  named : g.name = f.name ∧ g.params = f.params
  barred : ¬ fit → ∀ w, ∃ e w', e.AtParameter f ∧ view w' = view w ∧
    Machine.Ends (fun depth => Machine.call code depth g args) w (.error (.mismatch e)) w'
  asked : fit → ∀ w, ∃ w₁, view w₁ = view w ∧
    (∀ outcome w₂, Machine.Ends (fun depth => Machine.call code depth f args) w₁ outcome w₂ →
      ∃ reply w', Replies f good outcome reply ∧ view w' = view w₂ ∧
        Machine.Ends (fun depth => Machine.call code depth g args) w reply w') ∧
    ((∀ depth, Machine.call code depth f args w₁ = none) →
      ∀ depth, Machine.call code depth g args w = none)

namespace Signature

variable (s : Signature) (ask : Callable → Value → Bool) (f : Callable)

/-- What the check of the arguments finds is about a parameter. -/
theorem atParameter_of_argsViolation {args : Key} {e : Mismatch}
    (h : s.argsViolation ask f args = some e) : e.AtParameter f := by
  have hslots := checkSlots_eq_findSome? ask f args s.params
  obtain ⟨_, ⟨position, specs⟩, _, _, hfound, _⟩ :=
    List.findSome?_eq_some_iff.mp (hslots.symm.trans h)
  obtain ⟨t, -, rfl⟩ := Option.map_eq_some_iff.mp hfound
  exact ⟨rfl, position, rfl⟩

theorem atResult_of_resultViolation {v : Value} {e : Mismatch}
    (h : s.resultViolation ask f v = some e) : e.AtResult f := by
  obtain ⟨t, -, -, rfl⟩ := exists_rejecting_of_resultViolation ask f s h
  exact ⟨rfl, rfl⟩

theorem released_enforce_of_eq_none {v : Value} (hviolation : s.resultViolation ask f v = none) :
    s.released ask f .enforce (.ok v) = .ok v := by
  have hstops : Mode.enforce.stops (s.outcomeViolation ask f (.ok v)) = none := hviolation
  rw [released, hstops]

/-- Contributions one after the other declare for the arguments what both of them do. -/
theorem argsFit_append_iff (ks₁ ks₂ : List Contribution) (args : Key) :
    (ofContributions (ks₁ ++ ks₂)).ArgsFit ask args ↔
      (ofContributions ks₁).ArgsFit ask args ∧ (ofContributions ks₂).ArgsFit ask args := by
  simp only [argsFit_ofContributions_iff, List.mem_append]
  constructor
  · exact fun h => ⟨fun position t ht => h position t (Or.inl ht),
      fun position t ht => h position t (Or.inr ht)⟩
  · rintro ⟨h₁, h₂⟩ position t (ht | ht)
    · exact h₁ position t ht
    · exact h₂ position t ht

/-- A result fits the specs of two lists of contributions if it fits those of each. -/
theorem resultFits_append_iff (ks₁ ks₂ : List Contribution) (v : Value) :
    (ofContributions (ks₁ ++ ks₂)).ResultFits ask v ↔
      (ofContributions ks₁).ResultFits ask v ∧ (ofContributions ks₂).ResultFits ask v := by
  unfold ResultFits
  simp only [(collects_ofContributions _).results, List.filterMap_append, List.forall_mem_append]

end Signature

/-- What is replied once more, with another check of the result. -/
theorem Replies.released {f g : Callable} {good : Value → Prop} {outcome reply : Outcome}
    (h : Replies f good outcome reply) (hname : g.name = f.name) (s : Signature)
    (ask : Callable → Value → Bool) :
    Replies f (fun v => good v ∧ s.ResultFits ask v) outcome (s.released ask g .enforce reply) := by
  cases h with
  | failed e => exact .failed e
  | refused hbad he => exact .refused (fun h => hbad h.1) he
  | @passed v hgood =>
    cases hviolation : s.resultViolation ask g v with
    | none =>
      rw [s.released_enforce_of_eq_none ask g hviolation]
      exact .passed ⟨hgood, (s.resultViolation_eq_none_iff ask g v).mp hviolation⟩
    | some e =>
      rw [s.released_enforce ask g hviolation]
      have hat := s.atResult_of_resultViolation ask g hviolation
      refine .refused (fun h => ?_) ⟨hat.function.trans hname, hat.location⟩
      have hfits := (s.resultViolation_eq_none_iff ask g v).mpr h.2
      cases hfits.symm.trans hviolation

section Wrapping

variable {code : Code σ} {view : World σ → γ} {f g h : Callable} {args : Key}

/-- A function guards itself against nothing. -/
theorem Code.guards_self (code : Code σ) (view : World σ → γ) (f : Callable) (args : Key) :
    code.Guards view f f args True (fun _ => True) where
  named := ⟨rfl, rfl⟩
  barred hfit := absurd trivial hfit
  asked _ w := by
    refine ⟨w, rfl, fun outcome w₂ hends => ⟨outcome, w₂, ?_, rfl, hends⟩, id⟩
    cases outcome with
    | error e => exact .failed e
    | ok v => exact .passed trivial

variable {fit : Prop} {good : Value → Prop} {s : Signature} {ask : Callable → Value → Bool}

/-- Enforcing a signature around a guarding function adds it to what is guarded. -/
theorem Code.Guards.validated (hg : code.Guards view f g args fit good)
    (hview : World.Overlooks view) (hask : code.Decides s ask view)
    (hh : code.bodies[h.body]? = some (.validated ⟨g, s, .enforce⟩))
    (hnamed : h.name = g.name ∧ h.params = g.params) :
    code.Guards view f h args (fit ∧ s.ArgsFit ask args) (fun v => good v ∧ s.ResultFits ask v) := by
  obtain ⟨hname, hparams⟩ := hg.named
  have hcall {w w' : World σ} {outcome : Outcome} (hends : Machine.Ends (fun depth =>
      Machine.callValidated (Machine.call code depth) ⟨g, s, .enforce⟩ args) w outcome w') :
      Machine.Ends (fun depth => Machine.call code depth h args) w outcome w' :=
    hends.deeper fun depth => Machine.call_validated code args depth h _ hh
  refine ⟨⟨hnamed.1.trans hname, hnamed.2.trans hparams⟩, ?_, ?_⟩
  · intro hnot w
    cases hviolation : s.argsViolation ask g args with
    | some e =>
      obtain ⟨w', hends, hsame, -⟩ :=
        Machine.ends_stopped hview hask g .enforce args w e hviolation
      obtain ⟨hfunction, position, hlocation⟩ := s.atParameter_of_argsViolation ask g hviolation
      refine ⟨e, w', ⟨hfunction.trans hname, position, ?_⟩, hsame, hcall hends⟩
      rw [hlocation, Callable.paramName?, Callable.paramName?, hparams]
    | none =>
      have hfits := (s.argsViolation_eq_none_iff ask g args).mp hviolation
      obtain ⟨w₁, hbefore, hanswered, -⟩ :=
        Machine.exists_asked hview hask g .enforce args w hviolation
      obtain ⟨e, w₂, hat, hsame, hends⟩ := hg.barred (fun hfit => hnot ⟨hfit, hfits⟩) w₁
      obtain ⟨w', hreleased, hafter, -⟩ := hanswered _ w₂ hends
      exact ⟨e, w', hat, hafter.trans (hsame.trans hbefore), hcall hreleased⟩
  · rintro ⟨hfit, hfits⟩ w
    have hviolation := (s.argsViolation_eq_none_iff ask g args).mpr hfits
    obtain ⟨w₁, hbefore, hanswered, hunanswered⟩ :=
      Machine.exists_asked hview hask g .enforce args w hviolation
    obtain ⟨w₂, hbefore', hreplied, hsilent⟩ := hg.asked hfit w₁
    refine ⟨w₂, hbefore'.trans hbefore, fun outcome w₃ hends => ?_, fun hnone depth => ?_⟩
    · obtain ⟨reply, w₄, hreplies, hafter, hends'⟩ := hreplied outcome w₃ hends
      obtain ⟨w', hreleased, hafter', -⟩ := hanswered reply w₄ hends'
      exact ⟨_, w', hreplies.released hname s ask, hafter'.trans hafter, hcall hreleased⟩
    · have hstalls : Machine.Stalls (fun depth =>
          Machine.callValidated (Machine.call code depth) ⟨g, s, .enforce⟩ args) w :=
        hunanswered (hsilent hnone)
      have hcalled : Machine.Stalls (fun depth => Machine.call code depth h args) w :=
        hstalls.deeper fun depth => Machine.call_validated code args depth h _ hh
      exact hcalled.call_eq_none depth

/-- What is guarded is a matter of what fits and what is good. -/
theorem Code.Guards.congr (hg : code.Guards view f g args fit good) {fit' : Prop}
    {good' : Value → Prop} (hfit : fit ↔ fit') (hgood : ∀ v, good v ↔ good' v) :
    code.Guards view f g args fit' good' := by
  obtain rfl := propext hfit
  obtain rfl := funext fun v => propext (hgood v)
  exact hg

end Wrapping

/-- Between the two worlds the function has been called once, with these arguments, and nothing else has
been done to the view. -/
def World.AskedOnce (w w' : World σ) (code : Code σ) (view : World σ → γ) (f : Callable) (args : Key) :
    Prop :=
  ∃ depth w₁ w₂ answer, view w₁ = view w ∧
    Machine.call code depth f args w₁ = some (answer, w₂) ∧ view w' = view w₂

section Calling

variable {code : Code σ} {view : World σ → γ} {f g : Callable} {args : Key} {fit : Prop}
  {good : Value → Prop} (hg : code.Guards view f g args fit good) {w : World σ}

include hg

theorem Code.Guards.exists_barred (hfit : ¬ fit) :
    ∃ e, e.AtParameter f ∧ code.Yields g args w (.error (.mismatch e)) := by
  obtain ⟨e, w', hat, -, enough, hrun⟩ := hg.barred hfit w
  exact ⟨e, hat, enough, w', hrun enough (Nat.le_refl enough)⟩

theorem Code.Guards.exists_reply (hfit : fit)
    (hdetermined : ∀ w w' outcome, view w = view w' →
      code.Yields f args w outcome → code.Yields f args w' outcome)
    {outcome : Outcome} (hyields : code.Yields f args w outcome) :
    ∃ reply, Replies f good outcome reply ∧ code.Yields g args w reply := by
  obtain ⟨w₁, hbefore, hreplied, -⟩ := hg.asked hfit w
  obtain ⟨depth, w₂, hcall⟩ := hdetermined w w₁ outcome hbefore.symm hyields
  obtain ⟨reply, w', hreplies, -, enough, hrun⟩ :=
    hreplied outcome w₂ (Machine.ends_of_call code hcall)
  exact ⟨reply, hreplies, enough, w', hrun enough (Nat.le_refl enough)⟩

variable {depth : Nat} {outcome : Outcome} {w' : World σ}
  (hcall : Machine.call code depth g args w = some (outcome, w'))

include hcall

theorem Code.Guards.view_eq (hfit : ¬ fit) : view w' = view w := by
  obtain ⟨e, w₁, -, hsame, hends⟩ := hg.barred hfit w
  rw [(Machine.ends_of_call code hcall).world_eq hends, hsame]

theorem Code.Guards.askedOnce (hfit : fit) : w.AskedOnce w' code view f args := by
  obtain ⟨w₁, hbefore, hreplied, hsilent⟩ := hg.asked hfit w
  by_cases hanswers : ∃ depth r, Machine.call code depth f args w₁ = some r
  · obtain ⟨depth', ⟨answer, w₂⟩, hanswer⟩ := hanswers
    obtain ⟨reply, w₃, -, hafter, hends⟩ := hreplied answer w₂ (Machine.ends_of_call code hanswer)
    refine ⟨depth', w₁, w₂, answer, hbefore, hanswer, ?_⟩
    rw [(Machine.ends_of_call code hcall).world_eq hends, hafter]
  · have hnone (depth : Nat) : Machine.call code depth f args w₁ = none := by
      cases hresult : Machine.call code depth f args w₁ with
      | none => rfl
      | some r => exact absurd ⟨depth, r, hresult⟩ hanswers
    cases (hsilent hnone depth).symm.trans hcall

end Calling

/-- Function `g` was made of `f` by enforcing the signature around it, in an engine whose code is still
there. -/
def Code.Wraps (code : Code σ) (f : Callable) (s : Signature) (g : Callable) : Prop :=
  ∃ e e' : Engine σ, Engine.wrapWithValidation f s e = (g, e') ∧
    ∀ (j : Nat) body, e'.code.bodies[j]? = some body → code.bodies[j]? = some body

theorem Code.wraps_wrapWithValidation (e later : Engine σ) (f : Callable) (s : Signature)
    (hlater : (Engine.wrapWithValidation f s e).2.Extends later) :
    later.code.Wraps f s (Engine.wrapWithValidation f s e).1 :=
  ⟨e, _, rfl, hlater.bodies⟩

theorem Code.Wraps.body {code : Code σ} {f g : Callable} {s : Signature} (h : code.Wraps f s g) :
    code.bodies[g.body]? = some (.validated ⟨f, s, .enforce⟩) ∧ g.name = f.name ∧ g.params = f.params := by
  obtain ⟨e, e', hmade, hkept⟩ := h
  obtain ⟨rfl, rfl⟩ := Prod.mk.inj hmade.symm
  exact ⟨hkept _ _ Array.getElem?_push_size, rfl, rfl⟩

/-- To enforce a signature around a guarding function makes a guarding function, of more. -/
theorem Code.Guards.wraps {code : Code σ} {view : World σ → γ} {f g h : Callable} {args : Key}
    {fit : Prop} {good : Value → Prop} {s : Signature} {ask : Callable → Value → Bool}
    (hg : code.Guards view f g args fit good) (hview : World.Overlooks view)
    (hask : code.Decides s ask view) (hh : code.Wraps g s h) :
    code.Guards view f h args (fit ∧ s.ArgsFit ask args) (fun v => good v ∧ s.ResultFits ask v) := by
  obtain ⟨hbody, hnamed⟩ := hh.body
  exact hg.validated hview hask hbody hnamed

section Comparing

variable (w : World σ) (code : Code σ) (view : World σ → γ) (f g g' : Callable) (args : Key) (fit : Prop)
  (good : Value → Prop)

/-- Calls of `g` and of `g'` with these arguments, in the same world, next to the plain call of `f`. -/
structure World.GuardedAlike : Prop where
  /-- Arguments that do not fit: both calls end with a mismatch of a parameter. -/
  barred : ¬ fit → ∃ e e', e.AtParameter f ∧ e'.AtParameter f ∧
    code.Yields g args w (.error (.mismatch e)) ∧ code.Yields g' args w (.error (.mismatch e'))
  /-- No check fails: both calls answer the same as `f`, be it a result or an error. -/
  released : fit → ∀ outcome, (∀ v, outcome = .ok v → good v) → code.Yields f args w outcome →
    code.Yields g args w outcome ∧ code.Yields g' args w outcome
  /-- A result that is not good: both calls end with a mismatch of the result. -/
  refused : fit → ∀ v, ¬ good v → code.Yields f args w (.ok v) → ∃ e e', e.AtResult f ∧ e'.AtResult f ∧
    code.Yields g args w (.error (.mismatch e)) ∧ code.Yields g' args w (.error (.mismatch e'))
  /-- If `f` does not answer, neither call does. -/
  unanswered : fit → (∀ outcome, ¬ code.Yields f args w outcome) →
    ∀ outcome, ¬ code.Yields g args w outcome ∧ ¬ code.Yields g' args w outcome
  /-- Both ask `f` once, or neither does. -/
  asked : ∀ h ∈ [g, g'], ∀ depth outcome w', Machine.call code depth h args w = some (outcome, w') →
    (fit → w.AskedOnce w' code view f args) ∧ (¬ fit → view w' = view w)
  /-- So the body of a function that does not come back to itself runs equally often, once or not at all. -/
  executed : code.RunsAlone f → ∀ depth depth' outcome outcome' w₁ w₂,
    Machine.call code depth g args w = some (outcome, w₁) →
    Machine.call code depth' g' args w = some (outcome', w₂) →
      w₁.executions f.body = w₂.executions f.body ∧
        (fit → w₁.executions f.body = w.executions f.body ++ [args]) ∧
        (¬ fit → w₁.executions f.body = w.executions f.body)

end Comparing

section Comparing

variable {code : Code σ} {view : World σ → γ} {f g g' : Callable} {args : Key} {fit : Prop}
  {good : Value → Prop}

/-- To be called once is to be executed once, for a function that runs alone. -/
theorem World.AskedOnce.executions {w w' : World σ} (h : w.AskedOnce w' code view f args)
    (hcounts : ∀ w w', view w = view w' → w.executions f.body = w'.executions f.body)
    (halone : code.RunsAlone f) : w'.executions f.body = w.executions f.body ++ [args] := by
  obtain ⟨depth, w₁, w₂, answer, hbefore, hcall, hafter⟩ := h
  rw [hcounts _ _ hafter, Machine.executions_of_runsAlone halone _ _ _ _ _ hcall, hcounts _ _ hbefore]

/-- Functions that guard the same against the same are alike. -/
theorem guardedAlike_of_guards (hg : code.Guards view f g args fit good)
    (hg' : code.Guards view f g' args fit good) {s : Signature} {ask : Callable → Value → Bool}
    (hf : code.Undisturbed s ask f args view) (w : World σ) :
    w.GuardedAlike code view f g g' args fit good := by
  have hguards : ∀ h ∈ [g, g'], code.Guards view f h args fit good := by
    intro h hh
    rcases List.mem_cons.mp hh with rfl | hh
    · exact hg
    · obtain rfl := List.mem_singleton.mp hh
      exact hg'
  have hasked : ∀ h ∈ [g, g'], ∀ depth outcome w',
      Machine.call code depth h args w = some (outcome, w') →
        (fit → w.AskedOnce w' code view f args) ∧ (¬ fit → view w' = view w) :=
    fun h hh depth outcome w' hcall =>
      ⟨(hguards h hh).askedOnce hcall, (hguards h hh).view_eq hcall⟩
  have hreply {h : Callable} (hh : h ∈ [g, g']) (hfit : fit) {outcome : Outcome}
      (hyields : code.Yields f args w outcome) :
      ∃ reply, Replies f good outcome reply ∧ code.Yields h args w reply :=
    (hguards h hh).exists_reply hfit hf.determined hyields
  have hmem : g ∈ [g, g'] := List.mem_cons_self ..
  have hmem' : g' ∈ [g, g'] := List.mem_cons_of_mem _ (List.mem_cons_self ..)
  constructor
  · intro hfit
    obtain ⟨e, hat, hyields⟩ := hg.exists_barred (w := w) hfit
    obtain ⟨e', hat', hyields'⟩ := hg'.exists_barred (w := w) hfit
    exact ⟨e, e', hat, hat', hyields, hyields'⟩
  · intro hfit outcome hgood hyields
    have hsame {h : Callable} (hh : h ∈ [g, g']) : code.Yields h args w outcome := by
      obtain ⟨reply, hreplies, hyields'⟩ := hreply hh hfit hyields
      cases hreplies with
      | failed => exact hyields'
      | passed => exact hyields'
      | refused hbad => exact absurd (hgood _ rfl) hbad
    exact ⟨hsame hmem, hsame hmem'⟩
  · intro hfit v hbad hyields
    have hmismatch {h : Callable} (hh : h ∈ [g, g']) :
        ∃ e : Mismatch, e.AtResult f ∧ code.Yields h args w (.error (.mismatch e)) := by
      obtain ⟨reply, hreplies, hyields'⟩ := hreply hh hfit hyields
      cases hreplies with
      | passed hgood => exact absurd hgood hbad
      | refused _ hat => exact ⟨_, hat, hyields'⟩
    obtain ⟨e, hat, hends⟩ := hmismatch hmem
    obtain ⟨e', hat', hends'⟩ := hmismatch hmem'
    exact ⟨e, e', hat, hat', hends, hends'⟩
  · intro hfit hsilent outcome
    have hnever {h : Callable} (hh : h ∈ [g, g']) : ¬ code.Yields h args w outcome := by
      rintro ⟨depth, w', hcall⟩
      obtain ⟨depth', w₁, w₂, answer, hbefore, hanswer, -⟩ := (hasked h hh _ _ _ hcall).1 hfit
      exact hsilent answer (hf.determined w₁ w answer hbefore ⟨depth', w₂, hanswer⟩)
    exact ⟨hnever hmem, hnever hmem'⟩
  · exact hasked
  · intro halone depth depth' outcome outcome' w₁ w₂ hcall hcall'
    obtain ⟨honce, hkept⟩ := hasked g hmem _ _ _ hcall
    obtain ⟨honce', hkept'⟩ := hasked g' hmem' _ _ _ hcall'
    have hran (hfit : fit) := (honce hfit).executions hf.counts halone
    have hran' (hfit : fit) := (honce' hfit).executions hf.counts halone
    have hstill (hfit : ¬ fit) := hf.counts _ _ (hkept hfit)
    have hstill' (hfit : ¬ fit) := hf.counts _ _ (hkept' hfit)
    refine ⟨?_, hran, hstill⟩
    by_cases hfit : fit
    · rw [hran hfit, hran' hfit]
    · rw [hstill hfit, hstill' hfit]

end Comparing

/-- The checks of one list of contributions around those of another, next to the checks of both lists at
once. -/
theorem nested_validation_merges (code : Code σ) (f inner nested merged : Callable)
    (ks₁ ks₂ : List Contribution) (hinner : code.Wraps f (.ofContributions ks₁) inner)
    (hnested : code.Wraps inner (.ofContributions ks₂) nested)
    (hmerged : code.Wraps f (.ofContributions (ks₁ ++ ks₂)) merged)
    (ask : Callable → Value → Bool) (args : Key) (view : World σ → γ)
    (hf : code.Undisturbed (.ofContributions (ks₁ ++ ks₂)) ask f args view) (w : World σ) :
    w.GuardedAlike code view f nested merged args
      ((Signature.ofContributions (ks₁ ++ ks₂)).ArgsFit ask args)
      ((Signature.ofContributions (ks₁ ++ ks₂)).ResultFits ask) := by
  let s := Signature.ofContributions (ks₁ ++ ks₂)
  have hask (ks : List Contribution) (hks : ∀ k ∈ ks, k ∈ ks₁ ++ ks₂) :
      code.Decides (.ofContributions ks) ask view := by
    intro q hq
    obtain ⟨k, hk, hpredicate⟩ := (Signature.mentions_ofContributions_iff ks q).mp hq
    exact hf.decides q ((Signature.mentions_ofContributions_iff _ q).mpr ⟨k, hks k hk, hpredicate⟩)
  have hself := code.guards_self view f args
  have hinside := hself.wraps hf.overlooks (hask ks₁ fun k => List.mem_append_left ks₂) hinner
  have houtside := hinside.wraps hf.overlooks (hask ks₂ fun k => List.mem_append_right ks₁) hnested
  have hatOnce := hself.wraps hf.overlooks hf.decides hmerged
  refine guardedAlike_of_guards (houtside.congr ?_ fun v => ?_) (hatOnce.congr ?_ fun v => ?_) hf w
  · rw [true_and, ← Signature.argsFit_append_iff]
  · rw [true_and, ← Signature.resultFits_append_iff]
  · rw [true_and]
  · rw [true_and]

/-- The argument fits and the result does not: it is what a predicate of the inner checks accepts and a spec
of the outer ones does not. -/
theorem nested_validation_merges_refused :
    let echo : Body Unit := .program fun args => pure (.ok (args.headD .undefined))
    let e₁ := (Engine.define "first" ["x"] echo (Engine.start ())).2
    let e₂ := (Engine.define "echo" ["x"] echo e₁).2
    let f : Callable := ⟨"first", ["x"], 0⟩
    let q : Callable := ⟨"echo", ["x"], 1⟩
    let ks₁ : List Contribution := [.result (.predicate q), .param 0 .any]
    let ks₂ : List Contribution := [.param 0 (.predicate q), .result (.native .number)]
    let e₃ := (Engine.wrapWithValidation f (.ofContributions ks₁) e₂).2
    let inner := (Engine.wrapWithValidation f (.ofContributions ks₁) e₂).1
    let e₄ := (Engine.wrapWithValidation inner (.ofContributions ks₂) e₃).2
    let nested := (Engine.wrapWithValidation inner (.ofContributions ks₂) e₃).1
    let e₅ := (Engine.wrapWithValidation f (.ofContributions (ks₁ ++ ks₂)) e₄).2
    let merged := (Engine.wrapWithValidation f (.ofContributions (ks₁ ++ ks₂)) e₄).1
    let ask : Callable → Value → Bool := fun _ v => v.same v
    let view : World Unit → List Key := fun w => w.executions f.body
    let s := Signature.ofContributions (ks₁ ++ ks₂)
    e₅.code.Wraps f (.ofContributions ks₁) inner ∧ e₅.code.Wraps inner (.ofContributions ks₂) nested ∧
      e₅.code.Wraps f s merged ∧ e₅.code.Undisturbed s ask f [.null] view ∧ e₅.code.RunsAlone f ∧
      s.ArgsFit ask [.null] ∧ ¬ s.ResultFits ask .null ∧
      e₅.world.GuardedAlike e₅.code view f nested merged [.null] (s.ArgsFit ask [.null])
        (s.ResultFits ask) := by
  intro echo e₁ e₂ f q ks₁ ks₂ e₃ inner e₄ nested e₅ merged ask view s
  have hstep₄ : e₃.Extends e₄ := Engine.extends_define _ _ _ _
  have hstep₅ : e₄.Extends e₅ := Engine.extends_define _ _ _ _
  have hinner : e₅.code.Wraps f (.ofContributions ks₁) inner :=
    Code.wraps_wrapWithValidation e₂ e₅ f _ (hstep₄.trans hstep₅)
  have hnested : e₅.code.Wraps inner (.ofContributions ks₂) nested :=
    Code.wraps_wrapWithValidation e₃ e₅ inner _ hstep₅
  have hmerged : e₅.code.Wraps f s merged :=
    Code.wraps_wrapWithValidation e₄ e₅ f _ (Engine.extends_refl e₅)
  have hstill (w : World Unit) (event : Event) (h : Entry.startOf 0 ⟨event, w.active⟩ = none) :
      view (w.record event) = view w := by
    simp [view, f, World.executions_record, h]
  have hundisturbed : e₅.code.Undisturbed s ask f [.null] view := by
    constructor
    · exact ⟨fun _ _ => rfl, fun w e => hstill w _ rfl⟩
    · intro p hp v
      obtain rfl : p = q := by
        simpa [Signature.mentions_ofContributions_iff, Contribution.spec, Spec.predicates, ks₁, ks₂, s]
          using hp
      have hechoed : Machine.Settled view (fun depth => Machine.call e₅.code depth q [v]) (.ok v) :=
        Machine.settled_call_done rfl rfl fun w => hstill w _ rfl
      exact Machine.settled_deepPasses (fun w _ => hstill w _ rfl) hechoed
    · rintro w w' outcome - ⟨depth, w₁, hrun⟩
      obtain ⟨inner, rfl⟩ := Machine.exists_depth_of_call _ _ _ _ _ _ hrun
      obtain ⟨rfl, -⟩ := Prod.mk.inj (Option.some.inj hrun)
      exact ⟨1, _, rfl⟩
    · exact fun w w' hview => hview
  have halone : e₅.code.RunsAlone f := by
    refine ⟨_, rfl, fun depth args w outcome w' hrun => ?_⟩
    obtain ⟨-, rfl⟩ := Prod.mk.inj (Option.some.inj hrun)
    rfl
  have hfit : s.ArgsFit ask [.null] :=
    (s.argsViolation_eq_none_iff ask f [.null]).mp (by decide +kernel)
  have hbad : ¬ s.ResultFits ask .null := by
    intro hgood
    have hnone := (s.resultViolation_eq_none_iff ask f .null).mpr hgood
    have hsome : (s.resultViolation ask f .null).isSome := by decide +kernel
    rw [hnone] at hsome
    cases hsome
  exact ⟨hinner, hnested, hmerged, hundisturbed, halone, hfit, hbad,
    nested_validation_merges e₅.code f inner nested merged ks₁ ks₂ hinner hnested hmerged ask [.null] view
      hundisturbed e₅.world⟩

end RuntimeContracts
