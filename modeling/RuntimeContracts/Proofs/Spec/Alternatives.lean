import RuntimeContracts.Proofs.Spec.Judging
import RuntimeContracts.Proofs.Spec.Transfer

/-!
Alternatives in alternatives. A choice among the alternatives is a choice for the spec around it, too, so that
nested alternatives can be written in one row, at whatever depth they are. The same predicates are asked in the
same order, and an argument may be left out as before; in one row it shows whether it may.
-/
namespace RuntimeContracts.Spec

def alternatives : Spec → List Spec
  | anyOf members => members
  | s => [s]

mutual

def flatten : Spec → Spec
  | native k => native k
  | predicate f => predicate f
  | instanceOf cls => instanceOf cls
  | duck fields => duck (flattenFields fields)
  | anyOf members => anyOf (flattenMembers members)
  | listOf element => listOf (flatten element)
  | recordOf field => recordOf (flatten field)
  | optional inner => optional (flatten inner)
  | any => any

def flattenMembers : List Spec → List Spec
  | [] => []
  | s :: rest => (flatten s).alternatives ++ flattenMembers rest

def flattenFields : List (String × Spec) → List (String × Spec)
  | [] => []
  | (name, s) :: rest => (name, flatten s) :: flattenFields rest

end

theorem flattenMembers_eq_flatMap (members : List Spec) :
    flattenMembers members = members.flatMap fun s => s.flatten.alternatives := by
  induction members with
  | nil => rfl
  | cons s rest ih => rw [flattenMembers, ih, List.flatMap_cons]

theorem flattenFields_eq_map (fields : List (String × Spec)) :
    flattenFields fields = fields.map fun e => (e.1, e.2.flatten) := by
  induction fields with
  | nil => rfl
  | cons e rest ih => rw [flattenFields, ih, List.map_cons]

section Flat

def isChoice : Spec → Bool
  | anyOf _ => true
  | _ => false

mutual

def isFlat : Spec → Bool
  | native _ => true
  | predicate _ => true
  | instanceOf _ => true
  | duck fields => fieldsAreFlat fields
  | anyOf members => membersAreFlat members
  | listOf element => isFlat element
  | recordOf field => isFlat field
  | optional inner => isFlat inner
  | any => true

def membersAreFlat : List Spec → Bool
  | [] => true
  | s :: rest => !isChoice s && isFlat s && membersAreFlat rest

def fieldsAreFlat : List (String × Spec) → Bool
  | [] => true
  | (_, s) :: rest => isFlat s && fieldsAreFlat rest

end

theorem membersAreFlat_iff (members : List Spec) :
    membersAreFlat members = true ↔ ∀ s ∈ members, s.isChoice = false ∧ s.isFlat = true := by
  induction members with
  | nil => simp [membersAreFlat]
  | cons s rest ih => simp [membersAreFlat, ih]

theorem fieldsAreFlat_iff (fields : List (String × Spec)) :
    fieldsAreFlat fields = true ↔ ∀ e ∈ fields, e.2.isFlat = true := by
  induction fields with
  | nil => simp [fieldsAreFlat]
  | cons e rest ih => rw [fieldsAreFlat, Bool.and_eq_true, ih, List.forall_mem_cons]

/-- The alternatives of a flat spec are flat, and no choices. -/
theorem membersAreFlat_alternatives {s : Spec} (h : s.isFlat = true) :
    membersAreFlat s.alternatives = true := by
  cases s with
  | anyOf members => exact h
  | _ => simpa [alternatives, membersAreFlat, isChoice] using h

/-- No choice is left inside of a choice. -/
theorem isFlat_flatten (s : Spec) : s.flatten.isFlat = true := by
  induction s using induction with
  | duck fields ih =>
    rw [flatten, flattenFields_eq_map, isFlat, fieldsAreFlat_iff]
    exact List.forall_mem_map.mpr ih
  | anyOf members ih =>
    rw [flatten, flattenMembers_eq_flatMap, isFlat, membersAreFlat_iff]
    intro t ht
    obtain ⟨s, hs, ht⟩ := List.mem_flatMap.mp ht
    exact (membersAreFlat_iff _).mp (membersAreFlat_alternatives (ih s hs)) t ht
  | listOf element ih => exact ih
  | recordOf field ih => exact ih
  | optional inner ih => exact ih
  | _ => rfl

end Flat

section Absence

theorem any_acceptsAbsent_alternatives (s : Spec) : s.alternatives.any acceptsAbsent = s.acceptsAbsent := by
  cases s with
  | anyOf members => exact (anyAcceptsAbsent_eq_any members).symm
  | _ => simp [alternatives]

theorem acceptsAbsent_flatten (s : Spec) : s.flatten.acceptsAbsent = s.acceptsAbsent := by
  induction s using induction with
  | anyOf members ih =>
    rw [flatten, flattenMembers_eq_flatMap, acceptsAbsent, acceptsAbsent, anyAcceptsAbsent_eq_any,
      anyAcceptsAbsent_eq_any, List.any_flatMap]
    rw [Bool.eq_iff_iff, List.any_eq_true, List.any_eq_true]
    refine exists_congr fun s => and_congr_right fun hs => ?_
    rw [any_acceptsAbsent_alternatives, ih s hs]
  | _ => rfl

/-- The spec is optional, or it is a choice with an optional alternative. -/
def OptionalOutside (s : Spec) : Prop :=
  (∃ inner, s = optional inner) ∨ ∃ members inner, s = anyOf members ∧ optional inner ∈ members

/-- A spec that is no choice may be left out only if it is optional. -/
theorem exists_optional_of_acceptsAbsent {s : Spec} (hchoice : s.isChoice = false)
    (habsent : s.acceptsAbsent = true) : ∃ inner, s = optional inner := by
  cases s with
  | optional inner => exact ⟨inner, rfl⟩
  | anyOf members => cases hchoice
  | _ => cases habsent

theorem acceptsAbsent_iff_of_isFlat {s : Spec} (h : s.isFlat = true) :
    s.acceptsAbsent = true ↔ s.OptionalOutside := by
  cases s with
  | optional inner => exact iff_of_true rfl (Or.inl ⟨inner, rfl⟩)
  | anyOf members =>
    rw [acceptsAbsent, anyAcceptsAbsent_eq_any, List.any_eq_true]
    constructor
    · rintro ⟨s, hs, habsent⟩
      obtain ⟨inner, rfl⟩ :=
        exists_optional_of_acceptsAbsent ((membersAreFlat_iff members).mp h s hs).1 habsent
      exact Or.inr ⟨members, inner, rfl, hs⟩
    · rintro (⟨_, heq⟩ | ⟨_, inner, heq, hinner⟩)
      · cases heq
      · cases heq
        exact ⟨optional inner, hinner, rfl⟩
  | _ => exact iff_of_false Bool.false_ne_true (by rintro (⟨_, heq⟩ | ⟨_, _, heq, _⟩) <;> cases heq)

end Absence

section Matching

variable {m : Type → Type} [Monad m] [LawfulMonad m] (ask : Callable → Value → m Bool)

/-- The later alternatives are tried if the earlier ones fail. -/
theorem matchesAnyM_append (earlier later : List Spec) (v : Value) :
    matchesAnyM ask (earlier ++ later) v =
      (do if ← matchesAnyM ask earlier v then pure true else matchesAnyM ask later v) := by
  induction earlier with
  | nil => simp [matchesAnyM]
  | cons s rest ih =>
    rw [List.cons_append, matchesAnyM, matchesAnyM, ih, bind_assoc]
    refine bind_congr fun b => ?_
    cases b <;> simp

theorem matchesAnyM_alternatives (s : Spec) (v : Value) :
    matchesAnyM ask s.alternatives v = s.matchesM ask v := by
  cases s with
  | anyOf members => simp only [alternatives, matchesM]
  | _ => simp only [alternatives, matchesAnyM, ite_pure_eq]

/-- The alternatives in one row are asked in the order in which they were nested. -/
theorem matchesM_flatten (s : Spec) (v : Value) : s.flatten.matchesM ask v = s.matchesM ask v := by
  induction s using induction generalizing v with
  | duck fields ih =>
    rw [flatten, flattenFields_eq_map]
    exact matchesM_duck_map ih v
  | anyOf members ih =>
    rw [flatten, matchesM, matchesM]
    induction members with
    | nil => rfl
    | cons s rest ihrest =>
      obtain ⟨hhead, hrest⟩ := List.forall_mem_cons.mp ih
      rw [flattenMembers, matchesAnyM_append, matchesAnyM_alternatives, hhead, ihrest hrest, matchesAnyM]
  | listOf element ih => exact matchesM_listOf_congr ih v
  | recordOf field ih => exact matchesM_recordOf_congr ih v
  | optional inner ih => exact ih v
  | _ => rfl

theorem fitsM_flatten (s : Spec) (arg : Option Value) : s.flatten.fitsM ask arg = s.fitsM ask arg := by
  cases arg with
  | none => simp only [fitsM, acceptsAbsent_flatten]
  | some v => exact matchesM_flatten ask s v

end Matching

/-- The second spec is the first one with its alternatives in one row. -/
structure InOneRow (s t : Spec) : Prop where
  flat : t.isFlat = true
  judged : ∀ arg, s.JudgesAlike t arg
  /-- Whether an argument may be left out is answered at once, and can be seen from the outside. -/
  absent : ∀ {σ : Type} (call : Machine.Caller σ) (w : World σ),
    ∃ answer, Machine.fits call s none w = some (answer, w) ∧ (answer = true ↔ t.OptionalOutside)

theorem nested_alternatives_in_one_row (s : Spec) : s.InOneRow s.flatten where
  flat := isFlat_flatten s
  judged arg := judgesAlike_of_eq fun ask _ => (fitsM_flatten ask s arg).symm
  absent call w := by
    refine ⟨s.acceptsAbsent, rfl, ?_⟩
    rw [← acceptsAbsent_flatten]
    exact acceptsAbsent_iff_of_isFlat (isFlat_flatten s)

/-- Three choices in each other, an empty one, and an optional spec in the innermost one. The predicate
rejects the number, and then the optional spec accepts it. -/
theorem nested_alternatives_in_one_row_optional :
    let shade : Callable := ⟨"shade", ["v"], 0⟩
    let number := anyOf [anyOf [native .number]]
    let s := anyOf [anyOf [], anyOf [predicate shade, anyOf [native .string, anyOf [optional number]]]]
    let no : Nat → String → Value → Id Bool := fun _ _ _ => false
    s.flatten = anyOf [predicate shade, native .string, optional (anyOf [native .number])] ∧
      s.InOneRow s.flatten ∧
      (s.fitsM (recording no) (some (.int 3))).run [] = (true, [(0, Value.int 3)]) ∧
      (s.flatten.fitsM (recording no) (some (.int 3))).run [] = (true, [(0, Value.int 3)]) ∧
      s.flatten.OptionalOutside ∧ ¬ (anyOf [number]).flatten.OptionalOutside := by
  intro shade number s no
  have hrow := nested_alternatives_in_one_row s
  have hrecord : (s.fitsM (recording no) (some (.int 3))).run [] = (true, [(0, Value.int 3)]) := rfl
  refine ⟨rfl, hrow, hrecord, ?_, ?_, ?_⟩
  · rw [← (hrow.judged (some (.int 3))).asked no]
    exact hrecord
  · exact Or.inr ⟨[predicate shade, native .string, optional (anyOf [native .number])], _, rfl,
      .tail _ (.tail _ (.head _))⟩
  · rw [← acceptsAbsent_iff_of_isFlat (isFlat_flatten _), acceptsAbsent_flatten]
    exact Bool.false_ne_true

end RuntimeContracts.Spec
