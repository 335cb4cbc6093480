import RuntimeContracts.Machine.Run

/-!
Specs that judge alike. Two specs judge an argument alike if both ask the same predicates about the same
values, in the same order, and come to the same answer, whatever the predicates do: each may have a state,
fail or never come to an end. A predicate is known by its body and its name. The names of its parameters play
no part.
-/
namespace RuntimeContracts

namespace Machine

variable {σ : Type}

theorem call_withParams (code : Code σ) (depth : Nat) (f : Callable) (params : List String)
    (args : List Value) : call code depth (f.withParams params) args = call code depth f args := by
  cases depth with
  | zero => rfl
  | succ depth =>
    have hbody (body : Body σ) : runBody code (call code depth) (f.withParams params) args body =
        runBody code (call code depth) f args body := by
      cases body <;> rfl
    simp only [call, hbody]
    rfl

theorem passes_withParams (code : Code σ) (depth : Nat) (f : Callable) (params : List String) :
    passes (call code depth) (f.withParams params) = passes (call code depth) f := by
  funext v
  unfold passes
  rw [call_withParams]
  rfl

end Machine

namespace Spec

section Parts

variable {m : Type → Type} [Monad m]

/-- To branch on an answer and give it again is to give it. -/
theorem ite_pure_eq [LawfulMonad m] (act : m Bool) :
    (do if ← act then pure true else pure false) = act := by
  have hbranch : (fun b : Bool => if b then (pure true : m Bool) else pure false) = pure := by
    funext b
    cases b <;> rfl
  rw [hbranch, bind_pure]

variable {ask : Callable → Value → m Bool} {g : Spec → Spec}

/-- Wanted fields may be exchanged for others that are judged alike. -/
theorem matchesM_duck_map {wanted : List (String × Spec)}
    (h : ∀ e ∈ wanted, ∀ v, (g e.2).matchesM ask v = e.2.matchesM ask v) (v : Value) :
    (duck (wanted.map fun e => (e.1, g e.2))).matchesM ask v = (duck wanted).matchesM ask v := by
  rw [matchesM, matchesM]
  cases v.fields? with
  | none => rfl
  | some fields =>
    change matchesFieldsM ask _ fields = matchesFieldsM ask wanted fields
    induction wanted with
    | nil => rfl
    | cons e rest ih =>
      obtain ⟨hhead, hrest⟩ := List.forall_mem_cons.mp h
      simp only [List.map_cons, matchesFieldsM, hhead, ih hrest]

theorem matchesM_anyOf_map {members : List Spec}
    (h : ∀ s ∈ members, ∀ v, (g s).matchesM ask v = s.matchesM ask v) (v : Value) :
    (anyOf (members.map g)).matchesM ask v = (anyOf members).matchesM ask v := by
  rw [matchesM, matchesM]
  induction members with
  | nil => rfl
  | cons s rest ih =>
    obtain ⟨hhead, hrest⟩ := List.forall_mem_cons.mp h
    simp only [List.map_cons, matchesAnyM, hhead, ih hrest]

theorem matchesM_listOf_congr {s t : Spec} (h : ∀ v, s.matchesM ask v = t.matchesM ask v) (v : Value) :
    (listOf s).matchesM ask v = (listOf t).matchesM ask v := by
  simp only [matchesM, h]

theorem matchesM_recordOf_congr {s t : Spec} (h : ∀ v, s.matchesM ask v = t.matchesM ask v)
    (v : Value) : (recordOf s).matchesM ask v = (recordOf t).matchesM ask v := by
  simp only [matchesM, h]

omit [Monad m] in
theorem anyAcceptsAbsent_eq_any (members : List Spec) :
    anyAcceptsAbsent members = members.any acceptsAbsent := by
  induction members with
  | nil => rfl
  | cons s rest ih => rw [anyAcceptsAbsent, ih, List.any_cons]

end Parts

def recording {m : Type → Type} [Monad m] (ask : Nat → String → Value → m Bool) (f : Callable)
    (v : Value) : StateT (List (Nat × Value)) m Bool := do
  modify (· ++ [(f.body, v)])
  ask f.body f.name v

/-- The two specs judge the argument alike. -/
structure JudgesAlike (s t : Spec) (arg : Option Value) : Prop where
  /-- The record of the questions is the same, and so is the answer, whatever the predicates do. -/
  asked : ∀ {m : Type → Type} [Monad m] [LawfulMonad m] (ask : Nat → String → Value → m Bool),
    s.fitsM (recording ask) arg = t.fitsM (recording ask) arg
  /-- In a run they have the same answer, or both none, and leave the same world and journal. -/
  run : ∀ {σ : Type} (code : Code σ) (depth : Nat),
    Machine.fits (Machine.call code depth) s arg = Machine.fits (Machine.call code depth) t arg

/-- It is enough that the specs put the same questions in every monad. -/
theorem judgesAlike_of_eq {s t : Spec} {arg : Option Value}
    (h : ∀ {m : Type → Type} [Monad m] [LawfulMonad m] (ask : Callable → Value → m Bool),
      (∀ f params, ask (f.withParams params) = ask f) → s.fitsM ask arg = t.fitsM ask arg) :
    s.JudgesAlike t arg where
  asked ask := h (recording ask) fun _ _ => rfl
  run code depth := h _ (Machine.passes_withParams code depth)

end Spec

end RuntimeContracts
