import RuntimeContracts.Proofs.Cache.Executions

/-!
Moments of rest in a trace: no execution is in progress, and no call or store stands between two of its
steps. A trace can be cut at any place, whether it is open or not; at a moment of rest, and only there, what
comes before is a trace with all its calls closed.
-/
namespace RuntimeContracts

def CacheStep.leadsOn : CacheStep → Bool
  | .called _ => true
  | .answered _ (.ok _) => true
  | .evicted _ => true
  | _ => false

namespace Executions

/-- After these steps nothing is in progress and nothing is left half done. -/
structure AtRest (steps : List CacheStep) : Prop where
  running : running [] steps = []
  settled : ∀ s, steps.getLast? = some s → s.leadsOn = false

/-- A place after some steps from a cache: at the end of a trace, in the middle of a call or store, or inside of
an execution. -/
inductive Cut (policy : CachePolicy) (c : Cache) (done : List CacheStep) : Prop
  | between (c₁ : Cache) (before : Trace policy c done c₁)
  | half (s : CacheStep) (hlast : done.getLast? = some s) (hleads : s.leadsOn)
  | inside (h : ∀ stack, ∃ key, key :: stack <:+ running stack done)

variable {policy : CachePolicy} {c c' c₂ : Cache} {done rest steps steps' : List CacheStep}

/-- The ends of a trace. -/
theorem cut_of_ends (h : Trace policy c steps c') (hsplit : steps = done ++ rest)
    (hends : done = [] ∨ rest = []) : Cut policy c done := by
  subst hsplit
  rcases hends with rfl | rfl
  · exact .between c (.nil c)
  · rw [List.append_nil] at h
    exact .between c' h

theorem cut_of_singleton {s : CacheStep} (h : Trace policy c [s] c') (hsplit : [s] = done ++ rest) :
    Cut policy c done := by
  refine cut_of_ends h hsplit ?_
  rcases List.append_eq_singleton_iff.mp hsplit.symm with ⟨hdone, -⟩ | ⟨-, hrest⟩
  · exact .inl hdone
  · exact .inr hrest

/-- A place in the second of two traces. -/
theorem Cut.append_left (hbefore : Trace policy c steps c₂) (h : Cut policy c₂ done) :
    Cut policy c (steps ++ done) := by
  cases h with
  | between c₁ before => exact .between c₁ (hbefore.append before)
  | half s hlast hleads =>
    refine .half s ?_ hleads
    rw [List.getLast?_append, hlast, Option.some_or]
  | inside h =>
    refine .inside fun stack => ?_
    rw [running_append, (orderly_of_trace hbefore stack).2]
    exact h stack

/-- A place in an execution lies in a call of which this is the callable. -/
theorem Cut.within (h : Cut policy c done) (key : Key) :
    Cut policy c (.called key :: .missed key :: done) := by
  have hstack : ∀ stack, running stack (.called key :: .missed key :: done) = running (key :: stack) done :=
    fun _ => rfl
  cases h with
  | between c₁ before =>
    refine .inside fun stack => ⟨key, ?_⟩
    have hrunning := (hstack stack).trans (orderly_of_trace before (key :: stack)).2
    exact hrunning ▸ List.suffix_rfl
  | half s hlast hleads =>
    refine .half s ?_ hleads
    rw [List.getLast?_cons, List.getLast?_cons, hlast]
    rfl
  | inside h =>
    refine .inside fun stack => ⟨key, ?_⟩
    obtain ⟨_, hinner⟩ := h (key :: stack)
    rw [hstack]
    exact (List.suffix_cons _ _).trans hinner

/-- The steps are the first ones of a store. -/
theorem leadsOn_of_storing {key : Key} {v : Value} (hsplit : c.storing policy key v = done ++ rest)
    (hrest : rest ≠ []) : ∀ s ∈ done, s.leadsOn := by
  intro s hs
  have hevicted : (c.store policy key v).evicted.map CacheStep.evicted = done ++ rest.dropLast := by
    rw [Cache.storing, ← List.dropLast_concat_getLast hrest, ← List.append_assoc] at hsplit
    exact List.append_inj_left' hsplit rfl
  obtain ⟨k, -, rfl⟩ := List.mem_map.mp (hevicted ▸ List.mem_append_left _ hs)
  rfl

/-- A place after a step that leads on. -/
theorem cut_of_leadsOn (before : List CacheStep) (hne : done ≠ []) (h : ∀ s ∈ done, s.leadsOn) :
    Cut policy c (before ++ done) := by
  refine .half (done.getLast hne) ?_ (h _ (List.getLast_mem hne))
  rw [List.getLast?_append, List.getLast?_eq_some_getLast hne, Option.some_or]

/-- The places in a call that has missed: before it, at its beginning, in the execution, at its end where
every step leads on, and after it. -/
theorem cut_of_bracket {key : Key} {close : List CacheStep}
    (hwhole : Trace policy c (.called key :: .missed key :: (steps ++ close)) c')
    (hinside : ∀ {done rest}, steps = done ++ rest → Cut policy c done)
    (hclose : ∀ {done rest}, close = done ++ rest → rest ≠ [] → ∀ s ∈ done, s.leadsOn)
    (hsplit : .called key :: .missed key :: (steps ++ close) = done ++ rest) :
    Cut policy c done := by
  have hends := cut_of_ends hwhole hsplit
  by_cases hrest : rest = []
  · exact hends (.inr hrest)
  · match done with
    | [] => exact hends (.inl rfl)
    | [t] =>
      obtain rfl : .called key = t := (List.cons.inj hsplit).1
      exact .half _ rfl rfl
    | t :: t' :: more =>
      simp only [List.cons_append, List.cons.injEq] at hsplit
      obtain ⟨rfl, rfl, hsplit⟩ := hsplit
      rcases List.append_eq_append_iff.mp hsplit with ⟨x, rfl, hx⟩ | ⟨y, hy, -⟩
      · by_cases hx' : x = []
        · subst hx'
          rw [List.append_nil]
          exact (hinside (List.append_nil steps).symm).within key
        · exact cut_of_leadsOn (.called key :: .missed key :: steps) hx' (hclose hx hrest)
      · exact (hinside hy).within key

/-- Every place in a trace is one of the three kinds. -/
theorem cut_of_trace (h : Trace policy c steps c') (hsplit : steps = done ++ rest) :
    Cut policy c done := by
  induction h generalizing done rest with
  | nil c => exact cut_of_ends (.nil c) hsplit (.inl (List.append_eq_nil_iff.mp hsplit.symm).1)
  | append hfirst _ ih ih' =>
    rcases List.append_eq_append_iff.mp hsplit with ⟨x, rfl, hx⟩ | ⟨y, hy, rfl⟩
    · exact .append_left hfirst (ih' hx)
    · exact ih hy
  | looked c key => exact cut_of_singleton (.looked c key) hsplit
  | measured c => exact cut_of_singleton (.measured c) hsplit
  | cleared c => exact cut_of_singleton (.cleared c) hsplit
  | stored c key v =>
    have hends := cut_of_ends (.stored c key v) hsplit
    by_cases hdone : done = []
    · exact hends (.inl hdone)
    · by_cases hrest : rest = []
      · exact hends (.inr hrest)
      · exact cut_of_leadsOn [] hdone (leadsOn_of_storing hsplit hrest)
  | hit c key v hfound =>
    have hwhole : Trace policy c [.called key, .hit key v] c := .hit c key v hfound
    have hends := cut_of_ends hwhole hsplit
    match done with
    | [] => exact hends (.inl rfl)
    | [t] =>
      obtain rfl : .called key = t := (List.cons.inj hsplit).1
      exact .half _ rfl rfl
    | t :: t' :: more =>
      simp only [List.cons_append, List.cons.injEq, List.nil_eq_append_iff] at hsplit
      exact hends (.inr hsplit.2.2.2)
  | @failed c c' steps key e hmiss inside ih =>
    refine cut_of_bracket (.failed key e hmiss inside) ih (fun {done rest} hclose hrest => ?_) hsplit
    rcases List.append_eq_singleton_iff.mp hclose.symm with ⟨rfl, -⟩ | ⟨-, hnil⟩
    · simp
    · exact absurd hnil hrest
  | @succeeded c c' steps key v hmiss inside ih =>
    refine cut_of_bracket (.succeeded key v hmiss inside) ih (fun {done rest} hclose hrest => ?_) hsplit
    cases done with
    | nil => simp
    | cons s more =>
      obtain ⟨rfl, hstoring⟩ := List.cons.inj hclose
      intro t ht
      rcases List.mem_cons.mp ht with rfl | ht
      · rfl
      · exact leadsOn_of_storing hstoring hrest t ht

/-- An open trace can be cut just as well: a call that it leaves open has its places in front of it, right after
it and inside of it. -/
theorem cut_of_openTrace (h : OpenTrace policy c steps c') (hsplit : steps = done ++ rest) :
    Cut policy c done := by
  induction h generalizing done rest with
  | closed h => exact cut_of_trace h hsplit
  | after h _ ih =>
    rcases List.append_eq_append_iff.mp hsplit with ⟨x, rfl, hx⟩ | ⟨y, hy, -⟩
    · exact .append_left h (ih hx)
    · exact cut_of_trace h hy
  | inside key _ _ ih =>
    match done with
    | [] => exact .between _ (.nil _)
    | [t] =>
      obtain rfl : .called key = t := (List.cons.inj hsplit).1
      exact .half _ rfl rfl
    | t :: t' :: more =>
      simp only [List.cons_append, List.cons.injEq] at hsplit
      obtain ⟨rfl, rfl, hsplit⟩ := hsplit
      exact (ih hsplit).within key

/-- The last step of a trace leaves nothing half done. -/
theorem settled_of_trace (h : Trace policy c steps c') :
    ∀ s, steps.getLast? = some s → s.leadsOn = false := by
  induction h with
  | nil => exact nofun
  | @append _ _ _ steps steps' _ _ ih ih' =>
    intro s hs
    rw [List.getLast?_append] at hs
    cases hlast : steps'.getLast? with
    | none =>
      rw [hlast, Option.none_or] at hs
      exact ih s hs
    | some t =>
      rw [hlast, Option.some_or] at hs
      exact ih' s (hlast.trans hs)
  | stored => simp [Cache.storing, CacheStep.leadsOn]
  | failed => simp [List.getLast?_cons, CacheStep.leadsOn]
  | succeeded => simp [List.getLast?_cons, Cache.storing, CacheStep.leadsOn]
  | _ => simp [CacheStep.leadsOn]

/-- At the end of a trace everything is at rest. -/
theorem atRest_of_trace (h : Trace policy c steps c') : AtRest steps :=
  ⟨(orderly_of_trace h []).2, settled_of_trace h⟩

/-- Up to a moment of rest an open trace is a trace. -/
theorem AtRest.exists_trace (h : OpenTrace policy c (done ++ rest) c') (hrest : AtRest done) :
    ∃ c₁, Trace policy c done c₁ := by
  cases cut_of_openTrace h rfl with
  | between c₁ before => exact ⟨c₁, before⟩
  | half s hlast hleads => exact absurd hleads (by rw [hrest.settled s hlast]; exact Bool.false_ne_true)
  | inside h =>
    obtain ⟨key, hsuffix⟩ := h []
    rw [hrest.running] at hsuffix
    exact absurd (List.suffix_nil.mp hsuffix) (List.cons_ne_nil _ _)

end Executions

end RuntimeContracts
