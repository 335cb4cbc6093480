import Mathlib.Logic.Relation
import RuntimeContracts.Proofs.Ascending.Entries
import RuntimeContracts.Proofs.Spec.Meaning
import RuntimeContracts.Proofs.Value.Allocation

/-!
Specs are monotone in their parts. Whatever matches a spec still matches when a part of it, at any depth, is
replaced by one that matches no less, when an alternative is added or when a field is no longer wanted, and
so it goes on after any number of such changes. It is enough to know of a replacement what it does to the
values that there are, as long as the parts of these are among them.
-/
namespace RuntimeContracts

namespace Value

structure ClosedUnderParts (among : Value → Prop) : Prop where
  item : ∀ v, among v → ∀ items, v.items? = some items → ∀ u ∈ items, among u
  field : ∀ v, among v → ∀ fields, v.fields? = some fields → ∀ e ∈ fields, among e.2

theorem closedUnderParts_livesIn (memory : Memory) : ClosedUnderParts (LivesIn memory) where
  item _ hv _ hitems _ hu := hv.item hitems hu
  field _ hv _ hfields _ he := hv.field hfields he

theorem ClosedUnderParts.lookup {among : Value → Prop} (h : ClosedUnderParts among) {v : Value}
    (hv : among v) {fields : List (String × Value)} (hfields : v.fields? = some fields) {name : String}
    {u : Value} (hu : fields.lookup name = some u) : among u :=
  h.field v hv fields hfields (name, u) (Ascending.mem_of_lookup hu)

end Value

namespace Spec

/-- One part of the first spec, at any depth, is changed by the relation. -/
inductive Inside (change : Spec → Spec → Prop) : Spec → Spec → Prop
  | here {s t : Spec} (h : change s t) : Inside change s t
  | wanted {s t : Spec} (h : Inside change s t) (before : List (String × Spec)) (name : String)
    (after : List (String × Spec)) :
    Inside change (duck (before ++ (name, s) :: after)) (duck (before ++ (name, t) :: after))
  | member {s t : Spec} (h : Inside change s t) (before after : List Spec) :
    Inside change (anyOf (before ++ s :: after)) (anyOf (before ++ t :: after))
  | element {s t : Spec} (h : Inside change s t) : Inside change (listOf s) (listOf t)
  | field {s t : Spec} (h : Inside change s t) : Inside change (recordOf s) (recordOf t)
  | inner {s t : Spec} (h : Inside change s t) : Inside change (optional s) (optional t)

theorem Inside.reversed {change : Spec → Spec → Prop} {s t : Spec} (h : Inside change s t) :
    Inside (fun t s => change s t) t s := by
  induction h with
  | here h => exact .here h
  | wanted _ before name after ih => exact .wanted ih before name after
  | member _ before after ih => exact .member ih before after
  | element _ ih => exact .element ih
  | field _ ih => exact .field ih
  | inner _ ih => exact .inner ih

theorem Inside.imp {change change' : Spec → Spec → Prop} (himp : ∀ s t, change s t → change' s t)
    {s t : Spec} (h : Inside change s t) : Inside change' s t := by
  induction h with
  | here h => exact .here (himp _ _ h)
  | wanted _ before name after ih => exact .wanted ih before name after
  | member _ before after ih => exact .member ih before after
  | element _ ih => exact .element ih
  | field _ ih => exact .field ih
  | inner _ ih => exact .inner ih

variable (ask : Callable → Value → Bool) (among : Value → Prop)

def Includes (s t : Spec) : Prop := ∀ v, among v → s.matchesValue ask v → t.matchesValue ask v

def Equates (s t : Spec) : Prop := ∀ v, among v → s.matchesValue ask v = t.matchesValue ask v

/-- A change after which no less is matched. -/
inductive Loosens : Spec → Spec → Prop
  | replace {s t : Spec} (h : Includes ask among s t) : Loosens s t
  | addMember (before : List Spec) (new : Spec) (after : List Spec) :
    Loosens (anyOf (before ++ after)) (anyOf (before ++ new :: after))
  | dropWanted (before : List (String × Spec)) (dropped : String × Spec) (after : List (String × Spec)) :
    Loosens (duck (before ++ dropped :: after)) (duck (before ++ after))

variable {ask among}

theorem includes_duck_of_forall {wanted wanted' : List (String × Spec)}
    (h : ∀ v, among v → ∀ fields, v.fields? = some fields →
      (∀ e ∈ wanted, ∃ u, fields.lookup e.1 = some u ∧ e.2.matchesValue ask u) →
        ∀ e ∈ wanted', ∃ u, fields.lookup e.1 = some u ∧ e.2.matchesValue ask u) :
    Includes ask among (duck wanted) (duck wanted') := by
  intro v hv hmatch
  obtain ⟨fields, hfields, hall⟩ := (matchesValue_duck_iff ask v wanted).mp hmatch
  exact (matchesValue_duck_iff ask v wanted').mpr ⟨fields, hfields, h v hv fields hfields hall⟩

theorem includes_anyOf_of_forall {members members' : List Spec}
    (h : ∀ s ∈ members, ∃ t ∈ members', Includes ask among s t) :
    Includes ask among (anyOf members) (anyOf members') := by
  intro v hv hmatch
  obtain ⟨s, hs, hmatch⟩ := (matchesValue_anyOf_iff ask v members).mp hmatch
  obtain ⟨t, ht, hincl⟩ := h s hs
  exact (matchesValue_anyOf_iff ask v members').mpr ⟨t, ht, hincl v hv hmatch⟩

theorem Loosens.includes {s t : Spec} (h : Loosens ask among s t) : Includes ask among s t := by
  cases h with
  | replace h => exact h
  | addMember before new after =>
    refine includes_anyOf_of_forall fun s hs => ⟨s, ?_, fun _ _ hmatch => hmatch⟩
    rw [List.mem_append] at hs ⊢
    exact hs.imp_right (List.mem_cons_of_mem new)
  | dropWanted before dropped after =>
    refine includes_duck_of_forall fun v _ fields _ hall e he => hall e ?_
    rw [List.mem_append] at he ⊢
    exact he.imp_right (List.mem_cons_of_mem dropped)

section Closed

variable (hclosed : Value.ClosedUnderParts among)

include hclosed

/-- The parts of a value are matched by the replaced part of the spec, at whatever depth they are. -/
theorem Inside.includes {s t : Spec} (h : Inside (Includes ask among) s t) : Includes ask among s t := by
  induction h with
  | here h => exact h
  | @wanted s t _ before name after ih =>
    refine includes_duck_of_forall fun v hv fields hfields hall e he => ?_
    simp only [List.mem_append, List.mem_cons] at he hall
    rcases he with he | rfl | he
    · exact hall e (Or.inl he)
    · obtain ⟨u, hu, hmatch⟩ := hall (name, s) (Or.inr (Or.inl rfl))
      exact ⟨u, hu, ih u (hclosed.lookup hv hfields hu) hmatch⟩
    · exact hall e (Or.inr (Or.inr he))
  | @member s t _ before after ih =>
    refine includes_anyOf_of_forall fun r hr => ?_
    simp only [List.mem_append, List.mem_cons] at hr ⊢
    rcases hr with hr | rfl | hr
    · exact ⟨r, Or.inl hr, fun _ _ hmatch => hmatch⟩
    · exact ⟨t, Or.inr (Or.inl rfl), ih⟩
    · exact ⟨r, Or.inr (Or.inr hr), fun _ _ hmatch => hmatch⟩
  | @element s t _ ih =>
    intro v hv hmatch
    obtain ⟨items, hitems, hall⟩ := (matchesValue_listOf_iff ask v s).mp hmatch
    exact (matchesValue_listOf_iff ask v t).mpr
      ⟨items, hitems, fun u hu => ih u (hclosed.item v hv items hitems u hu) (hall u hu)⟩
  | @field s t _ ih =>
    intro v hv hmatch
    obtain ⟨fields, hrecord, hall⟩ := (matchesValue_recordOf_iff ask v s).mp hmatch
    have hfields := Value.fields?_of_record? hrecord
    exact (matchesValue_recordOf_iff ask v t).mpr
      ⟨fields, hrecord, fun e he => ih e.2 (hclosed.field v hv fields hfields e he) (hall e he)⟩
  | @inner s t _ ih =>
    intro v hv hmatch
    rw [matchesValue_optional] at hmatch ⊢
    exact ih v hv hmatch

theorem includes_of_changes {s t : Spec}
    (h : Relation.ReflTransGen (Inside (Loosens ask among)) s t) : Includes ask among s t := by
  induction h with
  | refl => exact fun _ _ hmatch => hmatch
  | tail _ hstep ih =>
    have hincludes := Inside.includes hclosed (hstep.imp fun _ _ h => h.includes)
    exact fun v hv hmatch => hincludes v hv (ih v hv hmatch)

/-- To replace equals by equals is a change in both directions. -/
theorem Inside.equates {s t : Spec} (h : Inside (Equates ask among) s t) : Equates ask among s t := by
  have hforth : Includes ask among s t := by
    refine Inside.includes hclosed (h.imp fun r r' heq v hv hmatch => ?_)
    exact (heq v hv).symm.trans hmatch
  have hback : Includes ask among t s := by
    refine Inside.includes hclosed (h.reversed.imp fun r' r heq v hv hmatch => ?_)
    exact (heq v hv).trans hmatch
  exact fun v hv => Bool.eq_iff_iff.mpr ⟨hforth v hv, hback v hv⟩

theorem equates_of_changes {s t : Spec}
    (h : Relation.ReflTransGen (Inside (Equates ask among)) s t) : Equates ask among s t := by
  induction h with
  | refl => exact fun _ _ => rfl
  | tail _ hstep ih => exact fun v hv => (ih v hv).trans (hstep.equates hclosed v hv)

end Closed

/-- Any number of changes that loosen parts of a spec keep all matches, and any number of replacements of
equals by equals change none. -/
theorem matches_are_monotone (ask : Callable → Value → Bool) {among : Value → Prop}
    (hclosed : Value.ClosedUnderParts among) (s t : Spec) :
    (Relation.ReflTransGen (Inside (Loosens ask among)) s t →
      ∀ v, among v → s.matchesValue ask v → t.matchesValue ask v) ∧
    (Relation.ReflTransGen (Inside (Equates ask among)) s t →
      ∀ v, among v → s.matchesValue ask v = t.matchesValue ask v) :=
  ⟨includes_of_changes hclosed, equates_of_changes hclosed⟩

/-- In the elements of a list, one field is no longer wanted, and what is wanted of the other one gets a
predicate in the place of a native kind, and an alternative. -/
theorem matches_are_monotone_shades :
    let shade : Callable := ⟨"shade", ["v"], 0⟩
    let ask : Callable → Value → Bool := fun _ v => v.kind == .string || v.kind == .number
    let point := Class.root 0 "Point"
    let s := listOf (duck [("x", native .number), ("ink", anyOf [native .string])])
    let t := listOf (duck [("ink", anyOf [instanceOf point, predicate shade])])
    let red := Value.list 2 [.ofEntries 1 [("x", .int 1), ("ink", .string "red")]]
    let grey := Value.list 4 [.ofEntries 3 [("ink", .int 8)]]
    ∃ memory : Memory, red.LivesIn memory ∧ grey.LivesIn memory ∧
      Relation.ReflTransGen (Inside (Loosens ask (Value.LivesIn memory))) s t ∧
      s.matchesValue ask red ∧ t.matchesValue ask red ∧ s.matchesValue ask grey = false ∧
      t.matchesValue ask grey ∧ (optional t).matchesValue ask grey := by
  intro shade ask point s t red grey
  have hmade : Relation.ReflTransGen Stock.Step .empty ⟨5, [point], [grey, .ofEntries 3 [("ink", .int 8)],
      red, .ofEntries 1 [("x", .int 1), ("ink", .string "red")], .int 8, .string "red", .int 1]⟩ := by
    refine Relation.ReflTransGen.tail (.tail (.tail (.tail (.tail (.tail (.tail (.single (.root "Point"))
      (.plain (.int 1) rfl)) (.plain (.string "red") rfl)) (.plain (.int 8) rfl))
      (.record [("x", .int 1), ("ink", .string "red")] ?_))
      (.list [.ofEntries 1 [("x", .int 1), ("ink", .string "red")]] ?_))
      (.record [("ink", .int 8)] ?_)) (.list [.ofEntries 3 [("ink", .int 8)]] ?_)
    all_goals simp [Stock.empty, Stock.define, Stock.keep, Stock.allocate]
  obtain ⟨memory, hlives⟩ := Stock.exists_livesIn hmade
  have hclosed := Value.closedUnderParts_livesIn memory
  have hred : red.LivesIn memory := hlives red (by simp)
  have hgrey : grey.LivesIn memory := hlives grey (by simp)
  have hshade : Includes ask (Value.LivesIn memory) (native .string) (predicate shade) := by
    intro v _ hmatch
    rw [matchesValue_native] at hmatch
    rw [matchesValue_predicate]
    have hkind : Kind.string = v.kind := of_decide_eq_true hmatch
    simp [ask, ← hkind]
  have hdrop : Inside (Loosens ask (Value.LivesIn memory)) s
      (listOf (duck [("ink", anyOf [native .string])])) :=
    .element (.here (.dropWanted [] ("x", native .number) [("ink", anyOf [native .string])]))
  have hreplace : Inside (Loosens ask (Value.LivesIn memory))
      (listOf (duck [("ink", anyOf [native .string])])) (listOf (duck [("ink", anyOf [predicate shade])])) :=
    .element (.wanted (.member (.here (.replace hshade)) [] []) [] "ink" [])
  have hadd : Inside (Loosens ask (Value.LivesIn memory))
      (listOf (duck [("ink", anyOf [predicate shade])])) t :=
    .element (.wanted (.here (.addMember [] (instanceOf point) [predicate shade])) [] "ink" [])
  have hchanges : Relation.ReflTransGen (Inside (Loosens ask (Value.LivesIn memory))) s t :=
    .tail (.tail (.single hdrop) hreplace) hadd
  have hmatch : s.matchesValue ask red = true := by decide +kernel
  have hmatch' : t.matchesValue ask grey = true := by decide +kernel
  have hequal : Inside (Equates ask (Value.LivesIn memory)) t (optional t) :=
    .here fun v _ => (matchesValue_optional ask v t).symm
  have hsame := (matches_are_monotone ask hclosed t (optional t)).2 (.single hequal) grey hgrey
  exact ⟨memory, hred, hgrey, hchanges, hmatch,
    (matches_are_monotone ask hclosed s t).1 hchanges red hred hmatch, by decide +kernel, hmatch',
    hsame.symm.trans hmatch'⟩

end Spec

end RuntimeContracts
