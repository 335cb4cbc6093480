import RuntimeContracts.Proofs.Spec.Interchange
import RuntimeContracts.Proofs.Text.Reading

/-!
Specs that can be told by their texts. The text of a spec begins with a word, which says how it is formed, and
goes on with the texts of its parts between brackets, separated by commas. So it can be read back, whatever
follows it that is not a part of a word. Names of classes and of functions could say anything; without them,
and if the names of fields are words, specs have the same text only if they are equal.
-/
namespace RuntimeContracts.Spec

def isWordChar (c : Char) : Bool := c.isAlphanum || c == '_'

/-- The specs that name no class and no function, and no field but by a word. -/
inductive Legible : Spec → Prop
  | native (k : NativeKind) : Legible (native k)
  | duck {fields : List (String × Spec)} (hnames : ∀ e ∈ fields, ∀ c ∈ e.1.toList, isWordChar c)
    (h : ∀ e ∈ fields, Legible e.2) : Legible (duck fields)
  | anyOf {members : List Spec} (h : ∀ s ∈ members, Legible s) : Legible (anyOf members)
  | listOf {element : Spec} (h : Legible element) : Legible (listOf element)
  | recordOf {field : Spec} (h : Legible field) : Legible (recordOf field)
  | optional {inner : Spec} (h : Legible inner) : Legible (optional inner)
  | any : Legible any

def word : Spec → String
  | native k => k.name
  | anyOf _ => "AnyOf"
  | listOf _ => "ArrayOf"
  | recordOf _ => "ObjectOf"
  | optional _ => "Optional"
  | any => "Any"
  | _ => ""

def formerOf (word : String) : Former :=
  if word = "" then .duck
  else if word = "AnyOf" then .anyOf
  else if word = "ArrayOf" then .listOf
  else if word = "ObjectOf" then .recordOf
  else if word = "Optional" then .optional
  else if word = "Any" then .any
  else .native

def afterWord : Spec → List Char → List Char
  | native _, rest => rest
  | anyOf members, rest => '(' :: renderMembers members (')' :: rest)
  | listOf element, rest => '(' :: renderOnto element (')' :: rest)
  | recordOf field, rest => '(' :: renderOnto field (')' :: rest)
  | optional inner, rest => '(' :: renderOnto inner (')' :: rest)
  | any, rest => rest
  | s, rest => renderOnto s rest

def renderFieldOnto (e : String × Spec) (rest : List Char) : List Char :=
  e.1.toList ++ ':' :: ' ' :: renderOnto e.2 rest

theorem renderMembers_eq_separated (members : List Spec) (rest : List Char) :
    renderMembers members rest = Text.separated renderOnto members rest := by
  induction members with
  | nil => rfl
  | cons s members ih =>
    cases members with
    | nil => rfl
    | cons t members =>
      change renderOnto s (',' :: ' ' :: renderMembers (t :: members) rest) = _
      rw [ih]
      rfl

theorem renderFields_eq_separated (fields : List (String × Spec)) (rest : List Char) :
    renderFields fields rest = Text.separated renderFieldOnto fields rest := by
  induction fields with
  | nil => rfl
  | cons d fields ih =>
    cases fields with
    | nil => rfl
    | cons e fields =>
      change renderFieldOnto d (',' :: ' ' :: renderFields (e :: fields) rest) = _
      rw [ih]
      rfl

theorem opened_eq_append (word : String) (rest : List Char) :
    (word ++ "(").toList ++ rest = word.toList ++ '(' :: rest := by
  rw [String.toList_append, List.append_assoc]
  rfl

theorem renderOnto_eq_append (s : Spec) (rest : List Char) :
    renderOnto s rest = s.word.toList ++ s.afterWord rest := by
  cases s with
  | anyOf members => exact opened_eq_append "AnyOf" _
  | listOf element => exact opened_eq_append "ArrayOf" _
  | recordOf field => exact opened_eq_append "ObjectOf" _
  | optional inner => exact opened_eq_append "Optional" _
  | _ => rfl

theorem isWordChar_word (s : Spec) : ∀ c ∈ s.word.toList, isWordChar c := by
  refine List.all_eq_true.mp ?_
  cases s with
  | native k => cases k <;> decide
  | _ => simp only [word]; decide

theorem stops_afterWord {s : Spec} (hs : s.Legible) {rest : List Char} (hrest : Text.Stops isWordChar rest) :
    Text.Stops isWordChar (s.afterWord rest) := by
  cases hs with
  | native k => exact hrest
  | any => exact hrest
  | _ => exact Text.stops_cons (by decide) _

/-- Equal texts begin with equal words, which the same goes on after. -/
theorem word_eq_of_renderOnto_eq {s t : Spec} (hs : s.Legible) (ht : t.Legible) {rest rest' : List Char}
    (hrest : Text.Stops isWordChar rest) (hrest' : Text.Stops isWordChar rest')
    (h : renderOnto s rest = renderOnto t rest') : s.word = t.word ∧ s.afterWord rest = t.afterWord rest' := by
  rw [renderOnto_eq_append, renderOnto_eq_append] at h
  obtain ⟨hword, hafter⟩ := Text.word_append_inj (isWordChar_word s) (isWordChar_word t)
    (stops_afterWord hs hrest) (stops_afterWord ht hrest') h
  exact ⟨String.toList_inj.mp hword, hafter⟩

/-- The word tells how the spec is formed. -/
theorem head?_formers_eq {s : Spec} (hs : s.Legible) : s.formers.head? = some (formerOf s.word) := by
  cases hs with
  | native k => cases k <;> decide
  | _ => simp [formers, word, formerOf]

theorem native_name_inj {k k' : NativeKind} (h : k.name = k'.name) : k = k' := by
  revert h
  cases k <;> cases k' <;> decide

/-- No text of a spec begins with a bracket that closes. -/
theorem head?_renderOnto_ne {s : Spec} (hs : s.Legible) {close : Char} (hclose : isWordChar close = false)
    (hbrace : close ≠ '\x7b') (rest : List Char) : (renderOnto s rest).head? ≠ some close := by
  intro h
  cases hword : s.word.toList with
  | nil =>
    have hformer := head?_formers_eq hs
    rw [String.toList_eq_nil_iff.mp hword] at hformer
    cases hs with
    | duck _ _ => exact hbrace (Option.some.inj h).symm
    | _ => cases hformer
  | cons c letters =>
    rw [renderOnto_eq_append, hword] at h
    obtain rfl : c = close := Option.some.inj h
    have hletter := isWordChar_word s c (hword ▸ List.mem_cons_self ..)
    exact Bool.false_ne_true (hclose.symm.trans hletter)

/-- Nor does that of a wanted field. -/
theorem head?_renderFieldOnto_ne {e : String × Spec} (hname : ∀ c ∈ e.1.toList, isWordChar c)
    {close : Char} (hclose : isWordChar close = false) (hcolon : close ≠ ':') (rest : List Char) :
    (renderFieldOnto e rest).head? ≠ some close := by
  intro h
  cases hletters : e.1.toList with
  | nil =>
    rw [renderFieldOnto, hletters] at h
    exact hcolon (Option.some.inj h).symm
  | cons c letters =>
    rw [renderFieldOnto, hletters] at h
    obtain rfl : c = close := Option.some.inj h
    have hletter := hname c (hletters ▸ List.mem_cons_self ..)
    exact Bool.false_ne_true (hclose.symm.trans hletter)

abbrev Reads (s : Spec) : Prop := Text.ReadsBack renderOnto isWordChar Legible s

/-- The texts of the members can be read back up to the bracket that closes them. -/
theorem members_inj {members members' : List Spec} (h : ∀ s ∈ members, s.Legible)
    (h' : ∀ s ∈ members', s.Legible) (hread : ∀ s ∈ members, s.Reads) {rest rest' : List Char}
    (heq : renderMembers members (')' :: rest) = renderMembers members' (')' :: rest')) :
    members = members' ∧ rest = rest' := by
  rw [renderMembers_eq_separated, renderMembers_eq_separated] at heq
  refine Text.separated_inj renderOnto (by decide) (by decide) (by decide) (fun s hs => ?_) h h' hread heq
  exact head?_renderOnto_ne hs (by decide) (by decide)

def LegibleField (e : String × Spec) : Prop := (∀ c ∈ e.1.toList, isWordChar c) ∧ e.2.Legible

theorem fields_inj {fields fields' : List (String × Spec)} (h : ∀ e ∈ fields, LegibleField e)
    (h' : ∀ e ∈ fields', LegibleField e) (hread : ∀ e ∈ fields, e.2.Reads) {rest rest' : List Char}
    (heq : renderFields fields ('\x7d' :: rest) = renderFields fields' ('\x7d' :: rest')) :
    fields = fields' ∧ rest = rest' := by
  rw [renderFields_eq_separated, renderFields_eq_separated] at heq
  have hfields : ∀ e ∈ fields, Text.ReadsBack renderFieldOnto isWordChar LegibleField e := by
    intro d hd e he rest rest' hrest hrest' heq
    obtain ⟨hname, htext⟩ := Text.word_append_inj (h d hd).1 he.1 (Text.stops_cons (by decide) _)
      (Text.stops_cons (by decide) _) heq
    have hafter := (List.cons.inj (List.cons.inj htext).2).2
    obtain ⟨hspec, hrest⟩ := hread d hd e.2 he.2 rest rest' hrest hrest' hafter
    exact ⟨Prod.ext (String.toList_inj.mp hname) hspec, hrest⟩
  refine Text.separated_inj renderFieldOnto (by decide) (by decide) (by decide) (fun e he => ?_) h h'
    hfields heq
  exact head?_renderFieldOnto_ne he.1 (by decide) (by decide)

/-- A spec can be read back if it can be told from those that are formed alike. -/
theorem reads_of_alike {s : Spec} (hs : s.Legible)
    (h : ∀ t, t.Legible → s.formers.head? = t.formers.head? → s.word = t.word → ∀ rest rest',
      s.afterWord rest = t.afterWord rest' → s = t ∧ rest = rest') : s.Reads := by
  intro t ht rest rest' hrest hrest' heq
  obtain ⟨hword, hafter⟩ := word_eq_of_renderOnto_eq hs ht hrest hrest' heq
  have hformer := head?_formers_eq hs
  rw [hword, ← head?_formers_eq ht] at hformer
  exact h t ht hformer hword rest rest' hafter

/-- One spec between brackets can be read back if it can be where a bracket follows. -/
theorem Reads.bracketed {s t : Spec} (hs : s.Reads) (ht : t.Legible) {rest rest' : List Char}
    (h : '(' :: renderOnto s (')' :: rest) = '(' :: renderOnto t (')' :: rest')) : s = t ∧ rest = rest' := by
  have hstops (text : List Char) : Text.Stops isWordChar (')' :: text) := Text.stops_cons (by decide) text
  obtain ⟨hspec, hrest⟩ := hs t ht _ _ (hstops rest) (hstops rest') (List.cons.inj h).2
  exact ⟨hspec, (List.cons.inj hrest).2⟩

/-- The text of a legible spec can be read back. -/
theorem Legible.reads {s : Spec} (hs : s.Legible) : s.Reads := by
  induction hs with
  | native k =>
    refine reads_of_alike (.native k) fun t ht hformer hword rest rest' hafter => ?_
    cases ht with
    | native k' => exact ⟨congrArg Spec.native (native_name_inj hword), hafter⟩
    | _ => cases hformer
  | duck hnames hfields ih =>
    refine reads_of_alike (.duck hnames hfields) fun t ht hformer hword rest rest' hafter => ?_
    cases ht with
    | duck hnames' hfields' =>
      obtain ⟨rfl, hrest⟩ := fields_inj (fun e he => ⟨hnames e he, hfields e he⟩)
        (fun e he => ⟨hnames' e he, hfields' e he⟩) ih (List.cons.inj hafter).2
      exact ⟨rfl, hrest⟩
    | _ => cases hformer
  | anyOf hmembers ih =>
    refine reads_of_alike (.anyOf hmembers) fun t ht hformer hword rest rest' hafter => ?_
    cases ht with
    | anyOf hmembers' =>
      obtain ⟨rfl, hrest⟩ := members_inj hmembers hmembers' ih (List.cons.inj hafter).2
      exact ⟨rfl, hrest⟩
    | _ => cases hformer
  | listOf helement ih =>
    refine reads_of_alike (.listOf helement) fun t ht hformer hword rest rest' hafter => ?_
    cases ht with
    | listOf ht =>
      obtain ⟨rfl, hrest⟩ := ih.bracketed ht hafter
      exact ⟨rfl, hrest⟩
    | _ => cases hformer
  | recordOf hfield ih =>
    refine reads_of_alike (.recordOf hfield) fun t ht hformer hword rest rest' hafter => ?_
    cases ht with
    | recordOf ht =>
      obtain ⟨rfl, hrest⟩ := ih.bracketed ht hafter
      exact ⟨rfl, hrest⟩
    | _ => cases hformer
  | optional hinner ih =>
    refine reads_of_alike (.optional hinner) fun t ht hformer hword rest rest' hafter => ?_
    cases ht with
    | optional ht =>
      obtain ⟨rfl, hrest⟩ := ih.bracketed ht hafter
      exact ⟨rfl, hrest⟩
    | _ => cases hformer
  | any =>
    refine reads_of_alike .any fun t ht hformer hword rest rest' hafter => ?_
    cases ht with
    | any => exact ⟨rfl, hafter⟩
    | _ => cases hformer

theorem Legible.madeOf {s : Spec} (hs : s.Legible) : s.MadeOf [] [] := by
  induction hs with
  | native k => exact .native k
  | duck _ _ ih => exact .duck ih
  | anyOf _ ih => exact .anyOf ih
  | listOf _ ih => exact .listOf ih
  | recordOf _ ih => exact .recordOf ih
  | optional _ ih => exact .optional ih
  | any => exact .any

/-- Specs that name nothing but fields, by words, have the same text exactly if they are equal. -/
theorem text_identifies_spec {s t : Spec} (hs : s.Legible) (ht : t.Legible) :
    s.render = t.render ↔ (s == t) = true := by
  constructor
  · intro h
    obtain ⟨rfl, -⟩ := hs.reads t ht [] [] trivial trivial (String.ofList_inj.mp h)
    exact beq_refl s
  · intro h
    have hnone : Identified [] [] := ⟨nofun, nofun⟩
    have hbare := bare_eq_of_beq hnone hs.madeOf ht.madeOf h
    rw [← render_bare s, hbare, render_bare t]

/-- Hardly anything but brackets and commas: a choice in a choice, and the same two side by side. -/
theorem text_identifies_spec_empty :
    let none := anyOf []
    let s := duck [("", listOf (duck [])), ("a_1", anyOf [any, anyOf [none]])]
    let t := duck [("", listOf (duck [])), ("a_1", anyOf [any, none, none])]
    s.Legible ∧ t.Legible ∧ s.render = "\x7b: ArrayOf(\x7b\x7d), a_1: AnyOf(Any, AnyOf(AnyOf()))\x7d" ∧
      (s == t) = false ∧ s.render ≠ t.render := by
  intro none s t
  have hnone : none.Legible := .anyOf (by simp)
  have hlist : (listOf (duck [])).Legible := .listOf (.duck (by simp) (by simp))
  have hword : ∀ c ∈ "a_1".toList, isWordChar c := List.all_eq_true.mp (by decide)
  have hwords : ∀ name ∈ ["", "a_1"], ∀ c ∈ name.toList, isWordChar c :=
    List.forall_mem_cons.mpr ⟨by simp, List.forall_mem_singleton.mpr hword⟩
  have hs : s.Legible := by
    refine .duck (fun e he => hwords e.1 (List.mem_map_of_mem he)) ?_
    have hchoice : (anyOf [any, anyOf [none]]).Legible := .anyOf (by simp [Legible.any, Legible.anyOf, hnone])
    simp [hlist, hchoice]
  have ht : t.Legible := by
    refine .duck (fun e he => hwords e.1 (List.mem_map_of_mem he)) ?_
    have hchoice : (anyOf [any, none, none]).Legible := .anyOf (by simp [Legible.any, hnone])
    simp [hlist, hchoice]
  have hdiffer : (s == t) = false := rfl
  refine ⟨hs, ht, rfl, hdiffer, fun h => ?_⟩
  exact Bool.false_ne_true (hdiffer.symm.trans ((text_identifies_spec hs ht).mp h))

end RuntimeContracts.Spec
