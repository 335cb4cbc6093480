import RuntimeContracts.Proofs.Machine.Coupling

/-!
Calls in progress. They are written into the journal and are otherwise of no consequence: computations
that begin in worlds that differ in them alone go the same way. Every computation takes back the calls
that it adds, and what it records stands inside of the calls that were in progress; so the violations
reported directly inside of a validated call are those that the call itself has ignored.
-/
namespace RuntimeContracts

namespace World

variable {σ : Type} (w : World σ)

def bare : World σ := { w with active := [], journal := w.journal.map fun e => ⟨e.event, []⟩ }

/-- An event is recorded in the same way whatever calls are in progress. -/
theorem bare_record (event : Event) : (w.record event).bare = w.bare.record event := rfl

theorem bare_withVisible (s : Visible σ) : (w.withVisible s).bare = w.bare.withVisible s := rfl

theorem visible_bare : w.bare.visible = w.visible := rfl

end World

def Entry.ignoredWithin (names : List String) (e : Entry) : Option Mismatch :=
  if e.within = names then e.event.violation? else none

def World.ignored {σ : Type} (w : World σ) (names : List String) : List Mismatch :=
  w.journal.reverse.filterMap (Entry.ignoredWithin names)

namespace Machine

variable {σ α : Type}

def Alike (x y : Option (α × World σ)) : Prop :=
  x.map (fun r => (r.1, r.2.bare)) = y.map (fun r => (r.1, r.2.bare))

theorem alike_some {a b : α} {w w' : World σ} :
    Alike (some (a, w)) (some (b, w')) ↔ a = b ∧ w.bare = w'.bare := by
  simp [Alike]

def regardless : Simulation (Machine σ) (Machine σ) where
  Rel x y := ∀ w w', w.bare = w'.bare → Alike (x w) (y w')
  rel_pure a w w' h := alike_some.mpr ⟨rfl, h⟩
  rel_bind := by
    intro α β x y k l hx hk w w' h
    have hfirst := hx w w' h
    rw [bind_apply, bind_apply]
    cases hxw : x w with
    | none =>
      rw [hxw] at hfirst
      have hnone : y w' = none := Option.map_eq_none_iff.mp (Eq.symm hfirst)
      rw [hnone]
      rfl
    | some r =>
      obtain ⟨a, w₁⟩ := r
      cases hyw : y w' with
      | none => simp [Alike, hxw, hyw] at hfirst
      | some r' =>
        obtain ⟨b, w₁'⟩ := r'
        rw [hxw, hyw] at hfirst
        obtain ⟨rfl, hworlds⟩ := alike_some.mp hfirst
        exact hk a w₁ w₁' hworlds

theorem alike_within {x y : Machine σ α} (h : regardless.Rel x y) (name : String) {w w' : World σ}
    (hw : w.bare = w'.bare) : Alike (x w) (within name y w') := by
  have hinside := h w (w'.withActive (name :: w'.active)) hw
  rw [within_apply]
  unfold Alike at hinside ⊢
  rw [hinside, Option.map_map]
  rfl

def disregard : Coupling σ where
  outer := regardless
  inner := regardless
  inner_of_outer h := h
  rel_within := by
    intro α name x y h w w' hw
    have hinside := alike_within h name (w := w.withActive (name :: w.active)) hw
    rw [within_apply]
    unfold Alike at hinside ⊢
    rw [← hinside, Option.map_map]
    rfl
  rel_onVisible := by
    intro α g w w' h
    have hvisible := congrArg World.visible h
    rw [World.visible_bare, World.visible_bare] at hvisible
    refine alike_some.mpr ⟨by rw [hvisible], ?_⟩
    rw [World.bare_withVisible, World.bare_withVisible, hvisible, h]
  rel_record event _ w w' h := alike_some.mpr ⟨rfl, by rw [World.bare_record, World.bare_record, h]⟩
  rel_ignore e w w' h := alike_some.mpr ⟨rfl, by rw [World.bare_record, World.bare_record, h]⟩
  rel_none _ _ _ _ := rfl

/-- The computation leaves the calls in progress as they were and records inside of them. If it is to be
discreet, it reports no ignored violation directly inside of them. -/
def Inward (discreet : Prop) (x : Machine σ α) : Prop :=
  ∀ w a w', x w = some (a, w') → w'.active = w.active ∧
    ∃ entries, w'.journal = entries ++ w.journal ∧ ∀ e ∈ entries, w.active <:+ e.within ∧
      (discreet → e.event.violation?.isSome → e.within ≠ w.active)

theorem inward_of_still {discreet : Prop} {x : Machine σ α}
    (h : ∀ w a w', x w = some (a, w') → w'.active = w.active ∧ w'.journal = w.journal) :
    Inward discreet x := by
  intro w a w' hrun
  obtain ⟨hactive, hjournal⟩ := h w a w' hrun
  exact ⟨hactive, [], hjournal, fun e he => absurd he List.not_mem_nil⟩

/-- An event is recorded inside of the calls in progress. -/
theorem inward_record {discreet : Prop} {event : Event}
    (h : discreet → event.violation? = none) : Inward discreet (record event : Machine σ Unit) := by
  intro w a w' hrun
  obtain rfl : w.record event = w' := congrArg Prod.snd (Option.some.inj hrun)
  refine ⟨rfl, [⟨event, w.active⟩], rfl, fun e he => ?_⟩
  obtain rfl := List.mem_singleton.mp he
  refine ⟨List.suffix_rfl, fun hdiscreet hsome => ?_⟩
  rw [h hdiscreet] at hsome
  cases hsome

def inwards (discreet : Prop) : Simulation (Machine σ) (Machine σ) where
  Rel x _ := Inward discreet x
  rel_pure a := inward_of_still fun w b w' hrun => by
    obtain ⟨-, rfl⟩ := Prod.mk.inj (Option.some.inj hrun)
    exact ⟨rfl, rfl⟩
  rel_bind := by
    intro α β x y k l hx hk w b w' hrun
    obtain ⟨a, w₁, hfirst, hsecond⟩ := bind_eq_some x k w w' b hrun
    obtain ⟨hactive, entries, hjournal, hentries⟩ := hx w a w₁ hfirst
    obtain ⟨hactive', entries', hjournal', hentries'⟩ := hk a w₁ b w' hsecond
    rw [hactive] at hactive' hentries'
    refine ⟨hactive', entries' ++ entries, ?_, fun e he => ?_⟩
    · rw [hjournal', hjournal, List.append_assoc]
    · exact (List.mem_append.mp he).elim (hentries' e) (hentries e)

/-- What happens inside of a wrapped call is discreet from the outside. -/
theorem inward_within (name : String) {x : Machine σ α} (h : Inward False x) :
    Inward True (within name x) := by
  intro w a w' hrun
  rw [within_apply] at hrun
  obtain ⟨⟨b, w₁⟩, hinside, hr⟩ := Option.map_eq_some_iff.mp hrun
  obtain ⟨rfl, rfl⟩ := Prod.mk.inj hr
  obtain ⟨-, entries, hjournal, hentries⟩ := h _ b w₁ hinside
  refine ⟨rfl, entries, hjournal, fun e he => ?_⟩
  have hsuffix : name :: w.active <:+ e.within := (hentries e he).1
  refine ⟨(List.suffix_cons name w.active).trans hsuffix, fun _ _ hwithin => ?_⟩
  have hlength := hsuffix.length_le
  rw [hwithin, List.length_cons] at hlength
  omega

def inwardness : Coupling σ where
  outer := inwards True
  inner := inwards False
  inner_of_outer := by
    intro α x _ h w a w' hrun
    obtain ⟨hactive, entries, hjournal, hentries⟩ := h w a w' hrun
    exact ⟨hactive, entries, hjournal, fun e he => ⟨(hentries e he).1, False.elim⟩⟩
  rel_within name _ _ h := inward_within name h
  rel_onVisible g := inward_of_still fun w a w' hrun => by
    obtain ⟨-, rfl⟩ := Prod.mk.inj (Option.some.inj hrun)
    exact ⟨rfl, rfl⟩
  rel_record _ hquiet := inward_record fun _ => hquiet
  rel_ignore _ := inward_record False.elim
  rel_none _ := inward_of_still fun _ _ _ hrun => by cases hrun

/-- A discreet computation adds nothing to what is reported directly inside of the calls in progress. -/
theorem Inward.ignored {x : Machine σ α} (h : Inward True x) {w w' : World σ} {a : α}
    (hrun : x w = some (a, w')) : w'.ignored w.active = w.ignored w.active := by
  obtain ⟨-, entries, hjournal, hentries⟩ := h w a w' hrun
  have hnone : entries.reverse.filterMap (Entry.ignoredWithin w.active) = [] := by
    refine List.filterMap_eq_nil_iff.mpr fun e he => ?_
    unfold Entry.ignoredWithin
    split
    · rename_i hwithin
      refine Option.not_isSome_iff_eq_none.mp fun hsome => ?_
      exact (hentries e (List.mem_reverse.mp he)).2 trivial hsome hwithin
    · rfl
  unfold World.ignored
  rw [hjournal, List.reverse_append, List.filterMap_append, hnone, List.append_nil]

end Machine

/-- What is reported as ignored directly inside of the calls in progress is added at the end. -/
theorem World.ignored_record {σ : Type} (w : World σ) (e : Mismatch) :
    (w.record (.violationIgnored e)).ignored w.active = w.ignored w.active ++ [e] := by
  unfold World.ignored World.record
  rw [List.reverse_cons, List.filterMap_append]
  simp [Entry.ignoredWithin, Event.violation?]

end RuntimeContracts
