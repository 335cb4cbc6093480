import RuntimeContracts.Spec.Matching

/-!
Specs with other predicates. A match against a spec in which every predicate has been exchanged goes as the
match against the old one, with each question put to the new predicate.
-/
namespace RuntimeContracts.Spec

mutual

def rename (ρ : Callable → Callable) : Spec → Spec
  | native k => native k
  | predicate f => predicate (ρ f)
  | instanceOf cls => instanceOf cls
  | duck fields => duck (renameFields ρ fields)
  | anyOf members => anyOf (renameMembers ρ members)
  | listOf element => listOf (rename ρ element)
  | recordOf field => recordOf (rename ρ field)
  | optional inner => optional (rename ρ inner)
  | any => any

def renameMembers (ρ : Callable → Callable) : List Spec → List Spec
  | [] => []
  | s :: rest => rename ρ s :: renameMembers ρ rest

def renameFields (ρ : Callable → Callable) : List (String × Spec) → List (String × Spec)
  | [] => []
  | (name, s) :: rest => (name, rename ρ s) :: renameFields ρ rest

end

def replace (p p' : Callable) (s : Spec) : Spec := s.rename fun f => if f == p then p' else f

section Matching

variable {m : Type → Type} [Monad m] (ask : Callable → Value → m Bool) (ρ : Callable → Callable)

mutual

theorem matchesM_rename : ∀ (s : Spec) (v : Value),
    (s.rename ρ).matchesM ask v = s.matchesM (fun f v => ask (ρ f) v) v
  | native _, _ => by simp only [rename, matchesM]
  | predicate _, _ => by simp only [rename, matchesM]
  | instanceOf _, _ => by simp only [rename, matchesM]
  | duck wanted, v => by
    simp only [rename, matchesM]
    cases v.fields? with
    | none => rfl
    | some fields => exact matchesFieldsM_rename wanted fields
  | anyOf members, v => by
    simp only [rename, matchesM]
    exact matchesAnyM_rename members v
  | listOf element, v => by
    have helement := funext fun item => matchesM_rename element item
    simp only [rename, matchesM, helement]
  | recordOf field, v => by
    have hfield := funext fun e : String × Value => matchesM_rename field e.2
    simp only [rename, matchesM, hfield]
  | optional inner, v => by
    simp only [rename, matchesM]
    exact matchesM_rename inner v
  | any, _ => by simp only [rename, matchesM]

theorem matchesFieldsM_rename : ∀ (wanted : List (String × Spec)) (fields : List (String × Value)),
    matchesFieldsM ask (renameFields ρ wanted) fields =
      matchesFieldsM (fun f v => ask (ρ f) v) wanted fields
  | [], _ => by simp only [renameFields, matchesFieldsM]
  | (name, s) :: rest, fields => by
    have hhead := matchesM_rename s
    have hrest := matchesFieldsM_rename rest fields
    simp only [renameFields, matchesFieldsM, hhead, hrest]

theorem matchesAnyM_rename : ∀ (members : List Spec) (v : Value),
    matchesAnyM ask (renameMembers ρ members) v = matchesAnyM (fun f v => ask (ρ f) v) members v
  | [], _ => by simp only [renameMembers, matchesAnyM]
  | s :: rest, v => by
    have hhead := matchesM_rename s v
    have hrest := matchesAnyM_rename rest v
    simp only [renameMembers, matchesAnyM, hhead, hrest]

end

end Matching

end RuntimeContracts.Spec
