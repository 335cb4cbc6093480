import Mathlib.Data.List.Forall2
import RuntimeContracts.Proofs.Machine.Naming
import RuntimeContracts.Proofs.Spec.Judging
import RuntimeContracts.Proofs.Spec.Renaming
import RuntimeContracts.Proofs.Spec.Transfer
import RuntimeContracts.Proofs.Value.Allocation
import RuntimeContracts.Spec.Rendering

/-!
Equal specs. Equality looks at the bodies of predicates and at the identities of classes. One body has one
name, whatever the names of its parameters, and one identity is one class, so equal specs differ in names of
parameters at most. They ask the same bodies, allow the same arguments to be left out and have the same text.
-/
namespace RuntimeContracts.Spec

inductive MadeOf (fs : List Callable) (cs : List Class) : Spec → Prop
  | native (k : NativeKind) : MadeOf fs cs (native k)
  | predicate {f : Callable} (hf : f ∈ fs) : MadeOf fs cs (predicate f)
  | instanceOf {c : Class} (hc : c ∈ cs) : MadeOf fs cs (instanceOf c)
  | duck {fields : List (String × Spec)} (h : ∀ e ∈ fields, MadeOf fs cs e.2) : MadeOf fs cs (duck fields)
  | anyOf {members : List Spec} (h : ∀ s ∈ members, MadeOf fs cs s) : MadeOf fs cs (anyOf members)
  | listOf {element : Spec} (h : MadeOf fs cs element) : MadeOf fs cs (listOf element)
  | recordOf {field : Spec} (h : MadeOf fs cs field) : MadeOf fs cs (recordOf field)
  | optional {inner : Spec} (h : MadeOf fs cs inner) : MadeOf fs cs (optional inner)
  | any : MadeOf fs cs any

/-- Functions of one body have one name, and classes of one identity are one. -/
structure Identified (fs : List Callable) (cs : List Class) : Prop where
  functions : ∀ f ∈ fs, ∀ g ∈ fs, f.body = g.body → f.name = g.name
  classes : ∀ c ∈ cs, ∀ d ∈ cs, c.id = d.id → c = d

/-- Functions and classes that have been made one after another are identified. -/
theorem identified_of_made {σ : Type} {e : Engine σ} {fs : List Callable} (hfs : e.Makes fs)
    {stock : Stock} (hstock : Relation.ReflTransGen Stock.Step .empty stock) :
    Identified fs stock.classes := by
  obtain ⟨names, hnames⟩ := Engine.exists_names hfs
  obtain ⟨memory, hmemory⟩ := Stock.exists_fits hstock
  constructor
  · intro f hf g hg hbody
    rw [hnames.name_eq f hf, hbody, ← hnames.name_eq g hg]
  · intro c hc d hd hid
    rw [← (hmemory.classes c hc).1, hid, (hmemory.classes d hd).1]

section Lists

theorem renameMembers_eq_map (ρ : Callable → Callable) (members : List Spec) :
    renameMembers ρ members = members.map (rename ρ) := by
  induction members with
  | nil => rfl
  | cons s rest ih => rw [renameMembers, ih, List.map_cons]

theorem renameFields_eq_map (ρ : Callable → Callable) (fields : List (String × Spec)) :
    renameFields ρ fields = fields.map fun e => (e.1, e.2.rename ρ) := by
  induction fields with
  | nil => rfl
  | cons e rest ih => rw [renameFields, ih, List.map_cons]

theorem beqMembers_iff_forall₂ (members members' : List Spec) :
    beqMembers members members' = true ↔ List.Forall₂ (fun s t => (s == t) = true) members members' := by
  induction members generalizing members' with
  | nil => cases members' <;> simp [beqMembers]
  | cons s rest ih => cases members' <;> simp [beqMembers, ih, BEq.beq]

theorem beqFields_iff_forall₂ (fields fields' : List (String × Spec)) : beqFields fields fields' = true ↔
    List.Forall₂ (fun d e => d.1 = e.1 ∧ (d.2 == e.2) = true) fields fields' := by
  induction fields generalizing fields' with
  | nil => cases fields' <;> simp [beqFields]
  | cons d rest ih => cases fields' <;> simp [beqFields, ih, BEq.beq]

theorem map_eq_map_of_forall₂ {α β : Type} {r : α → α → Prop} {g : α → β} {xs ys : List α}
    (h : List.Forall₂ r xs ys) (hg : ∀ x ∈ xs, ∀ y ∈ ys, r x y → g x = g y) : xs.map g = ys.map g := by
  induction h with
  | nil => rfl
  | cons hhead _ ih =>
    have hrest := ih fun x hx y hy => hg x (List.mem_cons_of_mem _ hx) y (List.mem_cons_of_mem _ hy)
    rw [List.map_cons, List.map_cons, hrest, hg _ (List.mem_cons_self ..) _ (List.mem_cons_self ..) hhead]

end Lists

theorem beq_refl (s : Spec) : (s == s) = true := by
  change beq s s = true
  induction s using induction with
  | native k => exact beq_self_eq_true k
  | predicate f => exact beq_self_eq_true f.body
  | instanceOf c => exact beq_self_eq_true c.id
  | duck fields ih => exact (beqFields_iff_forall₂ _ _).mpr (List.forall₂_same.mpr fun e he => ⟨rfl, ih e he⟩)
  | anyOf members ih => exact (beqMembers_iff_forall₂ _ _).mpr (List.forall₂_same.mpr ih)
  | listOf element ih => exact ih
  | recordOf field ih => exact ih
  | optional inner ih => exact ih
  | any => rfl

def bare (s : Spec) : Spec := s.rename (·.withParams [])

section Equal

variable {fs : List Callable} {cs : List Class} (h : Identified fs cs)

include h

/-- Equal specs are the same spec when the names of parameters are dropped. -/
theorem bare_eq_of_beq {s t : Spec} (hs : s.MadeOf fs cs) (ht : t.MadeOf fs cs)
    (hequal : (s == t) = true) : s.bare = t.bare := by
  change beq s t = true at hequal
  induction hs generalizing t with
  | native k =>
    cases ht with
    | native k' => rw [show k = k' from beq_iff_eq.mp hequal]
    | _ => cases hequal
  | @predicate f hf =>
    cases ht with
    | @predicate g hg =>
      have hbody : f.body = g.body := beq_iff_eq.mp hequal
      have hname : f.name = g.name := h.functions f hf g hg hbody
      simp only [bare, rename, Callable.withParams, hbody, hname]
    | _ => cases hequal
  | @instanceOf c hc =>
    cases ht with
    | @instanceOf d hd => rw [h.classes c hc d hd (beq_iff_eq.mp hequal)]
    | _ => cases hequal
  | duck _ ih =>
    cases ht with
    | duck hfields =>
      simp only [bare, rename, renameFields_eq_map]
      refine congrArg Spec.duck (map_eq_map_of_forall₂ ((beqFields_iff_forall₂ _ _).mp hequal) ?_)
      intro d hd e he hde
      exact Prod.ext hde.1 (ih d hd (hfields e he) hde.2)
    | _ => cases hequal
  | anyOf _ ih =>
    cases ht with
    | anyOf hmembers =>
      simp only [bare, rename, renameMembers_eq_map]
      refine congrArg Spec.anyOf (map_eq_map_of_forall₂ ((beqMembers_iff_forall₂ _ _).mp hequal) ?_)
      exact fun s hs t ht hst => ih s hs (hmembers t ht) hst
    | _ => cases hequal
  | listOf _ ih =>
    cases ht with
    | listOf ht => exact congrArg Spec.listOf (ih ht hequal)
    | _ => cases hequal
  | recordOf _ ih =>
    cases ht with
    | recordOf ht => exact congrArg Spec.recordOf (ih ht hequal)
    | _ => cases hequal
  | optional _ ih =>
    cases ht with
    | optional ht => exact congrArg Spec.optional (ih ht hequal)
    | _ => cases hequal
  | any =>
    cases ht with
    | any => rfl
    | _ => cases hequal

end Equal

section Renamed

theorem acceptsAbsent_rename (ρ : Callable → Callable) (s : Spec) :
    (s.rename ρ).acceptsAbsent = s.acceptsAbsent := by
  induction s using induction with
  | anyOf members ih =>
    rw [rename, renameMembers_eq_map, acceptsAbsent, acceptsAbsent, anyAcceptsAbsent_eq_any,
      anyAcceptsAbsent_eq_any, List.any_map, Bool.eq_iff_iff, List.any_eq_true, List.any_eq_true]
    exact exists_congr fun s => and_congr_right fun hs => by rw [Function.comp_apply, ih s hs]
  | _ => rfl

variable {g : Spec → Spec}

theorem renderMembers_map {members : List Spec}
    (h : ∀ s ∈ members, ∀ rest, (g s).renderOnto rest = s.renderOnto rest) (rest : List Char) :
    renderMembers (members.map g) rest = renderMembers members rest := by
  induction members with
  | nil => rfl
  | cons s members ih =>
    obtain ⟨hhead, hmembers⟩ := List.forall_mem_cons.mp h
    have hrest := ih hmembers
    cases members with
    | nil => exact hhead rest
    | cons t members =>
      change renderOnto (g s) (',' :: ' ' :: renderMembers ((t :: members).map g) rest) = _
      rw [hhead, hrest]
      rfl

theorem renderFields_map {fields : List (String × Spec)}
    (h : ∀ e ∈ fields, ∀ rest, (g e.2).renderOnto rest = e.2.renderOnto rest) (rest : List Char) :
    renderFields (fields.map fun e => (e.1, g e.2)) rest = renderFields fields rest := by
  induction fields with
  | nil => rfl
  | cons e fields ih =>
    obtain ⟨hhead, hfields⟩ := List.forall_mem_cons.mp h
    have hrest := ih hfields
    cases fields with
    | nil => exact congrArg (fun text => e.1.toList ++ ':' :: ' ' :: text) (hhead rest)
    | cons d fields =>
      change e.1.toList ++ ':' :: ' ' :: renderOnto (g e.2)
        (',' :: ' ' :: renderFields ((d :: fields).map fun e => (e.1, g e.2)) rest) = _
      rw [hhead, hrest]
      rfl

/-- The text of a spec tells the names of its predicates, and nothing else of them. -/
theorem renderOnto_rename (ρ : Callable → Callable) (hρ : ∀ f, (ρ f).name = f.name) (s : Spec)
    (rest : List Char) : (s.rename ρ).renderOnto rest = s.renderOnto rest := by
  induction s using induction generalizing rest with
  | predicate f =>
    change "<predicate ".toList ++ (ρ f).name.toList ++ '>' :: rest =
      "<predicate ".toList ++ f.name.toList ++ '>' :: rest
    rw [hρ]
  | duck fields ih =>
    change '\x7b' :: renderFields (renameFields ρ fields) ('\x7d' :: rest) =
      '\x7b' :: renderFields fields ('\x7d' :: rest)
    rw [renameFields_eq_map, renderFields_map ih]
  | anyOf members ih =>
    change "AnyOf(".toList ++ renderMembers (renameMembers ρ members) (')' :: rest) =
      "AnyOf(".toList ++ renderMembers members (')' :: rest)
    rw [renameMembers_eq_map, renderMembers_map ih]
  | listOf element ih => exact congrArg ("ArrayOf(".toList ++ ·) (ih (')' :: rest))
  | recordOf field ih => exact congrArg ("ObjectOf(".toList ++ ·) (ih (')' :: rest))
  | optional inner ih => exact congrArg ("Optional(".toList ++ ·) (ih (')' :: rest))
  | _ => rw [rename]

theorem render_bare (s : Spec) : s.bare.render = s.render :=
  congrArg String.ofList (renderOnto_rename (·.withParams []) (fun _ => rfl) s [])

/-- Predicates are asked the same without the names of their parameters. -/
theorem fitsM_bare {m : Type → Type} [Monad m] {ask : Callable → Value → m Bool}
    (hask : ∀ f params, ask (f.withParams params) = ask f) (s : Spec) (arg : Option Value) :
    s.bare.fitsM ask arg = s.fitsM ask arg := by
  cases arg with
  | none => simp only [fitsM, bare, acceptsAbsent_rename]
  | some v =>
    have hsame : (fun (f : Callable) v => ask (f.withParams []) v) = ask := funext fun f => hask f []
    simp only [fitsM, bare, matchesM_rename, hsame]

end Renamed

/-- The two specs can be put in each other's place. -/
structure Interchangeable (s t : Spec) : Prop where
  judged : ∀ arg, s.JudgesAlike t arg
  absent : s.acceptsAbsent = t.acceptsAbsent
  rendered : s.render = t.render

/-- Specs that differ in names of parameters only can be put in each other's place. -/
theorem interchangeable_of_bare_eq {s t : Spec} (h : s.bare = t.bare) : s.Interchangeable t where
  judged arg := judgesAlike_of_eq fun ask hask => by rw [← fitsM_bare hask s, h, fitsM_bare hask t]
  absent := by
    have habsent := congrArg acceptsAbsent h
    simpa only [bare, acceptsAbsent_rename] using habsent
  rendered := by rw [← render_bare s, h, render_bare t]

end RuntimeContracts.Spec
