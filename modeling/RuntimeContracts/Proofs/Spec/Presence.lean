import RuntimeContracts.Proofs.Spec.Judging
import RuntimeContracts.Proofs.Spec.Transfer

/-!
Optional specs where a value is present. They are their inner specs there, at whatever depth they stand: only
an argument can be left out. A field that is wanted has to exist, and undefined is a value like any other.
-/
namespace RuntimeContracts.Spec

mutual

def withoutOptional : Spec → Spec
  | native k => native k
  | predicate f => predicate f
  | instanceOf cls => instanceOf cls
  | duck fields => duck (withoutOptionalFields fields)
  | anyOf members => anyOf (withoutOptionalMembers members)
  | listOf element => listOf (withoutOptional element)
  | recordOf field => recordOf (withoutOptional field)
  | optional inner => withoutOptional inner
  | any => any

def withoutOptionalMembers : List Spec → List Spec
  | [] => []
  | s :: rest => withoutOptional s :: withoutOptionalMembers rest

def withoutOptionalFields : List (String × Spec) → List (String × Spec)
  | [] => []
  | (name, s) :: rest => (name, withoutOptional s) :: withoutOptionalFields rest

end

theorem withoutOptionalMembers_eq_map (members : List Spec) :
    withoutOptionalMembers members = members.map withoutOptional := by
  induction members with
  | nil => rfl
  | cons s rest ih => rw [withoutOptionalMembers, ih, List.map_cons]

theorem withoutOptionalFields_eq_map (fields : List (String × Spec)) :
    withoutOptionalFields fields = fields.map fun e => (e.1, e.2.withoutOptional) := by
  induction fields with
  | nil => rfl
  | cons e rest ih => rw [withoutOptionalFields, ih, List.map_cons]

theorem optional_notMem_formers_withoutOptional (s : Spec) :
    Former.optional ∉ s.withoutOptional.formers := by
  induction s using induction with
  | duck fields ih =>
    rw [withoutOptional, withoutOptionalFields_eq_map, formers, formersOfFields_eq_flatMap,
      List.flatMap_map]
    simpa using ih
  | anyOf members ih =>
    rw [withoutOptional, withoutOptionalMembers_eq_map, formers, formersOf_eq_flatMap]
    simpa using ih
  | listOf element ih => simpa [withoutOptional, formers] using ih
  | recordOf field ih => simpa [withoutOptional, formers] using ih
  | optional inner ih => exact ih
  | _ => simp [withoutOptional, formers]

section Matching

variable {m : Type → Type} [Monad m] (ask : Callable → Value → m Bool)

theorem matchesM_withoutOptional (s : Spec) (v : Value) :
    s.withoutOptional.matchesM ask v = s.matchesM ask v := by
  induction s using induction generalizing v with
  | duck fields ih =>
    rw [withoutOptional, withoutOptionalFields_eq_map]
    exact matchesM_duck_map ih v
  | anyOf members ih =>
    rw [withoutOptional, withoutOptionalMembers_eq_map]
    exact matchesM_anyOf_map ih v
  | listOf element ih => exact matchesM_listOf_congr ih v
  | recordOf field ih => exact matchesM_recordOf_congr ih v
  | optional inner ih => exact ih v
  | _ => rfl

/-- A wanted field that is missing settles the answer, whatever is asked about fields before it. -/
theorem matchesFieldsM_of_missing [LawfulMonad m] {wanted : List (String × Spec)}
    {fields : List (String × Value)} {e : String × Spec} (he : e ∈ wanted)
    (hmissing : fields.lookup e.1 = none) :
    matchesFieldsM ask wanted fields = matchesFieldsM ask wanted fields >>= fun _ => pure false := by
  induction wanted with
  | nil => cases he
  | cons head rest ih =>
    obtain ⟨name, s⟩ := head
    rw [matchesFieldsM]
    cases hfield : fields.lookup name with
    | none => simp only [pure_bind]
    | some v =>
      have hrest : e ∈ rest := by
        refine (List.mem_cons.mp he).resolve_left ?_
        rintro rfl
        cases hfield.symm.trans hmissing
      rw [bind_assoc]
      refine bind_congr fun b => ?_
      cases b with
      | true => exact ih hrest
      | false => simp only [Bool.false_eq_true, if_false, pure_bind]

end Matching

def Refuses (s : Spec) (v : Value) : Prop :=
  ∀ {m : Type → Type} [Monad m] [LawfulMonad m] (ask : Callable → Value → m Bool),
    s.matchesM ask v = s.matchesM ask v >>= fun _ => pure false

theorem refuses_duck_of_missing {wanted : List (String × Spec)} {v : Value} {e : String × Spec}
    (he : e ∈ wanted) (hmissing : v.field? e.1 = none) : (duck wanted).Refuses v := by
  intro m _ _ ask
  unfold Value.field? at hmissing
  rw [matchesM]
  cases hfields : v.fields? with
  | none => simp only [pure_bind]
  | some fields =>
    rw [hfields] at hmissing
    exact matchesFieldsM_of_missing ask he hmissing

/-- A single wanted field that exists is judged by its spec. -/
theorem matchesM_duck_singleton {m : Type → Type} [Monad m] [LawfulMonad m]
    (ask : Callable → Value → m Bool) (name : String) (s : Spec) {v u : Value}
    (hfield : v.field? name = some u) : (duck [(name, s)]).matchesM ask v = s.matchesM ask u := by
  unfold Value.field? at hfield
  rw [matchesM]
  cases hfields : v.fields? with
  | none =>
    rw [hfields] at hfield
    cases hfield
  | some fields =>
    rw [hfields] at hfield
    simp only [matchesFieldsM, hfield, ite_pure_eq]

/-- Where a value is present, it makes no difference that some specs are optional. -/
structure PlainWherePresent (s : Spec) (v : Value) : Prop where
  judged : s.JudgesAlike s.withoutOptional (some v)
  plain : Former.optional ∉ s.withoutOptional.formers
  /-- A wanted field has to exist, although its spec is optional. -/
  missing : ∀ (wanted : List (String × Spec)) (name : String) (inner : Spec),
    (name, optional inner) ∈ wanted → v.field? name = none → (duck wanted).Refuses v
  /-- A wanted field that exists is judged by the inner spec, be it undefined or not. -/
  present : ∀ (name : String) (inner : Spec) (u : Value), v.field? name = some u →
    ∀ {m : Type → Type} [Monad m] [LawfulMonad m] (ask : Callable → Value → m Bool),
      (duck [(name, optional inner)]).matchesM ask v = inner.matchesM ask u
  undefined : ∀ inner : Spec, (optional inner).JudgesAlike inner (some .undefined)

theorem optional_is_transparent (s : Spec) (v : Value) : s.PlainWherePresent v where
  judged := judgesAlike_of_eq fun ask _ => (matchesM_withoutOptional ask s v).symm
  plain := optional_notMem_formers_withoutOptional s
  missing _ _ _ hwanted hmissing := refuses_duck_of_missing hwanted hmissing
  present name inner _ hfield _ _ _ ask := by
    rw [matchesM_duck_singleton ask name (optional inner) hfield, matchesM]
  undefined inner := judgesAlike_of_eq fun ask _ => by simp only [fitsM, matchesM]

/-- A field that exists and is undefined, with a choice of two specs, and a field that does not exist. -/
theorem optional_is_transparent_undefined :
    let shade : Callable := ⟨"shade", ["v"], 0⟩
    let code : Code Unit := ⟨#[.program fun args => pure (.ok (args.headD .null))], #[]⟩
    let v := Value.ofEntries 1 [("ink", .undefined), ("size", .int 3)]
    let ink := anyOf [optional (native .string), predicate shade]
    let s := optional (duck [("size", optional (native .number)), ("ink", optional ink)])
    let yes : Nat → String → Value → Id Bool := fun _ _ _ => true
    s.withoutOptional =
        duck [("size", native .number), ("ink", anyOf [native .string, predicate shade])] ∧
      s.PlainWherePresent v ∧
      (s.fitsM (recording yes) (some v)).run [] = (true, [(0, Value.undefined)]) ∧
      (duck [("ink", optional ink)]).matchesM (recording yes) v = ink.matchesM (recording yes) .undefined ∧
      (Machine.fits (Machine.call code 1) s (some v) (World.start ())).map Prod.fst = some true ∧
      (duck [("paper", optional any), ("ink", ink)]).Refuses v := by
  intro shade code v ink s yes
  have hplain := optional_is_transparent s v
  exact ⟨rfl, hplain, rfl, hplain.present "ink" ink .undefined rfl _, by decide +kernel,
    hplain.missing _ "paper" any (List.mem_cons_self ..) rfl⟩

end RuntimeContracts.Spec
