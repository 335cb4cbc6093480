import RuntimeContracts.Signature

/-!
Matching in two monads. A relation between the computations of two monads that returning and
sequencing respect extends from the questions asked of predicates to whole matches and to the checks
of a signature. Only the predicates that occur in a spec are ever asked.
-/
namespace RuntimeContracts

namespace Spec

mutual

def predicates : Spec → List Callable
  | native _ => []
  | predicate f => [f]
  | instanceOf _ => []
  | duck fields => predicatesOfFields fields
  | anyOf members => predicatesOf members
  | listOf element => predicates element
  | recordOf field => predicates field
  | optional inner => predicates inner
  | any => []

def predicatesOf : List Spec → List Callable
  | [] => []
  | s :: rest => predicates s ++ predicatesOf rest

def predicatesOfFields : List (String × Spec) → List Callable
  | [] => []
  | (_, s) :: rest => predicates s ++ predicatesOfFields rest

end

end Spec

/-- A relation between computations with one result that returning and sequencing respect. -/
structure Simulation (m n : Type → Type) [Monad m] [Monad n] where
  Rel : {α : Type} → m α → n α → Prop
  rel_pure : ∀ {α : Type} (a : α), Rel (pure a) (pure a)
  rel_bind : ∀ {α β : Type} {x : m α} {y : n α} {k : α → m β} {l : α → n β},
    Rel x y → (∀ a, Rel (k a) (l a)) → Rel (x >>= k) (y >>= l)

namespace Simulation

variable {m n : Type → Type} [Monad m] [Monad n] (S : Simulation m n)

theorem rel_allM {α : Type} (p : α → m Bool) (q : α → n Bool) (items : List α)
    (h : ∀ a, S.Rel (p a) (q a)) : S.Rel (items.allM p) (items.allM q) := by
  induction items with
  | nil => exact S.rel_pure true
  | cons a rest ih =>
    apply S.rel_bind (h a)
    intro b
    cases b with
    | true => exact ih
    | false => exact S.rel_pure false

theorem rel_mapM {α β : Type} [LawfulMonad m] [LawfulMonad n] (p : α → m β) (q : α → n β)
    (items : List α) (h : ∀ a, S.Rel (p a) (q a)) : S.Rel (items.mapM p) (items.mapM q) := by
  induction items with
  | nil =>
    rw [List.mapM_nil, List.mapM_nil]
    exact S.rel_pure []
  | cons a rest ih =>
    rw [List.mapM_cons, List.mapM_cons]
    exact S.rel_bind (h a) fun b => S.rel_bind ih fun bs => S.rel_pure (b :: bs)

section Matching

variable {ask : Callable → Value → m Bool} (ask' : Callable → Value → n Bool)

mutual

theorem rel_matchesM : ∀ (s : Spec) (v : Value),
    (∀ f ∈ s.predicates, ∀ w, S.Rel (ask f w) (ask' f w)) →
      S.Rel (s.matchesM ask v) (s.matchesM ask' v)
  | .native _, _, _ => S.rel_pure _
  | .predicate f, v, h => h f (List.mem_singleton_self f) v
  | .instanceOf _, _, _ => S.rel_pure _
  | .duck wanted, v, h => by
    simp only [Spec.matchesM]
    cases v.fields? with
    | none => exact S.rel_pure false
    | some fields => exact rel_matchesFieldsM wanted fields h
  | .anyOf members, v, h => rel_matchesAnyM members v h
  | .listOf element, v, h => by
    simp only [Spec.matchesM]
    cases v.items? with
    | none => exact S.rel_pure false
    | some items => exact S.rel_allM _ _ items fun item => rel_matchesM element item h
  | .recordOf field, v, h => by
    simp only [Spec.matchesM]
    cases v.record? with
    | none => exact S.rel_pure false
    | some fields => exact S.rel_allM _ _ fields fun e => rel_matchesM field e.2 h
  | .optional inner, v, h => rel_matchesM inner v h
  | .any, _, _ => S.rel_pure true

theorem rel_matchesFieldsM : ∀ (wanted : List (String × Spec)) (fields : List (String × Value)),
    (∀ f ∈ Spec.predicatesOfFields wanted, ∀ w, S.Rel (ask f w) (ask' f w)) →
      S.Rel (Spec.matchesFieldsM ask wanted fields) (Spec.matchesFieldsM ask' wanted fields)
  | [], _, _ => S.rel_pure true
  | (name, s) :: rest, fields, h => by
    simp only [Spec.matchesFieldsM]
    have hhead := fun f hf => h f (List.mem_append_left _ hf)
    have hrest := fun f hf => h f (List.mem_append_right _ hf)
    cases fields.lookup name with
    | none => exact S.rel_pure false
    | some v =>
      apply S.rel_bind (rel_matchesM s v hhead)
      intro b
      cases b with
      | true => exact rel_matchesFieldsM rest fields hrest
      | false => exact S.rel_pure false

theorem rel_matchesAnyM : ∀ (members : List Spec) (v : Value),
    (∀ f ∈ Spec.predicatesOf members, ∀ w, S.Rel (ask f w) (ask' f w)) →
      S.Rel (Spec.matchesAnyM ask members v) (Spec.matchesAnyM ask' members v)
  | [], _, _ => S.rel_pure false
  | s :: rest, v, h => by
    simp only [Spec.matchesAnyM]
    have hhead := fun f hf => h f (List.mem_append_left _ hf)
    have hrest := fun f hf => h f (List.mem_append_right _ hf)
    apply S.rel_bind (rel_matchesM s v hhead)
    intro b
    cases b with
    | true => exact S.rel_pure true
    | false => exact rel_matchesAnyM rest v hrest

end

theorem rel_fitsM (s : Spec) (arg : Option Value)
    (h : ∀ f ∈ s.predicates, ∀ w, S.Rel (ask f w) (ask' f w)) :
    S.Rel (s.fitsM ask arg) (s.fitsM ask' arg) := by
  cases arg with
  | none => exact S.rel_pure _
  | some v => exact S.rel_matchesM ask' s v h

end Matching

section Checking

variable {fits : Spec → Option Value → m Bool} (fits' : Spec → Option Value → n Bool)

theorem rel_firstRejecting (arg : Option Value) (specs : List Spec)
    (h : ∀ s ∈ specs, S.Rel (fits s arg) (fits' s arg)) :
    S.Rel (Signature.firstRejecting fits arg specs) (Signature.firstRejecting fits' arg specs) := by
  induction specs with
  | nil => exact S.rel_pure none
  | cons s rest ih =>
    apply S.rel_bind (h s (List.mem_cons_self ..))
    intro b
    cases b with
    | true => exact ih fun t ht => h t (List.mem_cons_of_mem _ ht)
    | false => exact S.rel_pure (some s)

theorem rel_checkSlots (f : Callable) (args : List Value) (slots : List (UInt64 × List Spec))
    (h : ∀ e ∈ slots, ∀ s ∈ e.2, ∀ arg, S.Rel (fits s arg) (fits' s arg)) :
    S.Rel (Signature.checkSlots fits f args slots) (Signature.checkSlots fits' f args slots) := by
  induction slots with
  | nil => exact S.rel_pure none
  | cons e rest ih =>
    obtain ⟨i, specs⟩ := e
    have hslot := fun s hs => h (i, specs) (List.mem_cons_self ..) s hs args[i.toNat]?
    apply S.rel_bind (S.rel_firstRejecting fits' _ specs hslot)
    intro rejecting
    cases rejecting with
    | none => exact ih fun e he => h e (List.mem_cons_of_mem _ he)
    | some s => exact S.rel_pure _

theorem rel_checkArgs (s : Signature) (f : Callable) (args : List Value)
    (h : ∀ e ∈ s.params, ∀ t ∈ e.2, ∀ arg, S.Rel (fits t arg) (fits' t arg)) :
    S.Rel (s.checkArgs fits f args) (s.checkArgs fits' f args) :=
  S.rel_checkSlots fits' f args s.params h

theorem rel_checkReturn (s : Signature) (f : Callable) (result : Value)
    (h : ∀ t ∈ s.returns, S.Rel (fits t (some result)) (fits' t (some result))) :
    S.Rel (s.checkReturn fits f result) (s.checkReturn fits' f result) := by
  apply S.rel_bind (S.rel_firstRejecting fits' _ s.returns h)
  intro rejecting
  cases rejecting with
  | none => exact S.rel_pure none
  | some t => exact S.rel_pure _

end Checking

end Simulation

end RuntimeContracts
