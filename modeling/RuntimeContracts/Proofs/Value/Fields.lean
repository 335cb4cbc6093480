import RuntimeContracts.Proofs.Ascending.Entries
import RuntimeContracts.Proofs.Machine.Naming
import RuntimeContracts.Proofs.Text.ByteOrder
import RuntimeContracts.Proofs.Value.Naming
import RuntimeContracts.Proofs.Value.Sharing

/-!
Fields. Records and instances are made of any list of entries, in any order and with names that may repeat.
They are determined by what the last entries of the names hold: a field is found there, the names are listed
in one order, and a comparison that walks through two lists of fields together compares what is found under
each name.
-/
namespace RuntimeContracts.Value

open Ascending

def compose (cls : Option Class) (id : Nat) (entries : List (String × Value)) : Value :=
  match cls with
  | none => ofEntries id entries
  | some c => instantiate c id entries

section Names

private theorem name_eq_of_not_lt (k l : String) (hkl : ¬ k < l) (hlk : ¬ l < k) : k = l :=
  String.le_antisymm (String.not_lt.mp hlk) (String.not_lt.mp hkl)

theorem ascends_fields (entries : List (String × Value)) : Ascends (Ascending.ofEntries entries) :=
  ascends_ofEntries (fun _ _ _ => String.lt_trans) name_eq_of_not_lt entries

theorem lookup_fields (name : String) (entries : List (String × Value)) :
    (Ascending.ofEntries entries).lookup name = last? name entries :=
  lookup_ofEntries String.lt_irrefl name_eq_of_not_lt name entries

/-- The fields hold what the last entries hold, one of each name, in the order of the bytes of the names. -/
structure ListsEntries (fields entries : List (String × Value)) : Prop where
  lookup : ∀ name, fields.lookup name = last? name entries
  names : ∀ name, name ∈ fields.map Prod.fst ↔ name ∈ entries.map Prod.fst
  ascending : (fields.map Prod.fst).Pairwise fun k l => Text.utf8 k < Text.utf8 l

theorem listsEntries_ofEntries (entries : List (String × Value)) :
    ListsEntries (Ascending.ofEntries entries) entries where
  lookup name := lookup_fields name entries
  names name := mem_keys_ofEntries_iff String.lt_irrefl name_eq_of_not_lt name entries
  ascending := List.pairwise_map.mpr ((ascends_fields entries).imp Text.utf8_lt_of_lt)

end Names

section Walking

theorem beqFields_iff_forall₂ (xs ys : List (String × Value)) :
    beqFields xs ys = true ↔ List.Forall₂ (fun x y => x.1 = y.1 ∧ beq x.2 y.2 = true) xs ys := by
  induction xs generalizing ys with
  | nil => cases ys <;> simp [beqFields]
  | cons x xs ih => cases ys <;> simp [beqFields, ih]

theorem agreesFields_iff_forall₂ (xs ys : List (String × Value)) :
    agreesFields xs ys = true ↔ List.Forall₂ (fun x y => x.1 = y.1 ∧ agrees x.2 y.2 = true) xs ys := by
  induction xs generalizing ys with
  | nil => cases ys <;> simp [agreesFields]
  | cons x xs ih => cases ys <;> simp [agreesFields, ih]

end Walking

section Composites

variable (cls cls' : Option Class) (id id' : Nat) (entries entries' : List (String × Value))

theorem fields?_compose :
    (compose cls id entries).fields? = some (Ascending.ofEntries entries) := by
  cases cls <;> rfl

theorem field?_compose (name : String) : (compose cls id entries).field? name = last? name entries := by
  unfold field?
  rw [fields?_compose]
  exact lookup_fields name entries

/-- What a walk through the fields of two composites compares is what is found under each name. -/
theorem forall₂_fields_iff (r : Value → Value → Prop) :
    List.Forall₂ (fun x y => x.1 = y.1 ∧ r x.2 y.2) (Ascending.ofEntries entries)
        (Ascending.ofEntries entries') ↔
      ∀ name, Option.Rel r (last? name entries) (last? name entries') := by
  have hwalk := forall₂_iff_rel_lookup (r := r) String.lt_irrefl (fun _ _ _ => String.lt_trans)
    (ascends_fields entries) (ascends_fields entries')
  simpa only [lookup_fields] using hwalk

/-- Composites are equal if they find equal values under every name. -/
theorem beq_compose_iff : beq (compose cls id entries) (compose cls' id' entries') = true ↔
    (cls == cls') = true ∧
      ∀ name, Option.Rel (fun u v => beq u v = true) (last? name entries) (last? name entries') := by
  rw [← forall₂_fields_iff, ← beqFields_iff_forall₂]
  cases cls <;> cases cls' <;> simp [compose, ofEntries, instantiate, beq]

theorem agrees_compose_iff : agrees (compose cls id entries) (compose cls' id' entries') = true ↔
    (cls == cls') = true ∧
      ∀ name, Option.Rel (fun u v => agrees u v = true) (last? name entries) (last? name entries') := by
  rw [← forall₂_fields_iff, ← agreesFields_iff_forall₂]
  cases cls <;> cases cls' <;> simp [compose, ofEntries, instantiate, agrees]

variable {cls id entries} {memory : Memory} {names : Nat → String}

theorem named_compose (h : ∀ e ∈ entries, e.2.Named names) : (compose cls id entries).Named names := by
  intro f hf
  have hfield : function f ∈ partsOfFields (Ascending.ofEntries entries) := by
    cases cls <;> exact (List.mem_cons.mp hf).resolve_left nofun
  obtain ⟨e, he, hmem⟩ := mem_partsOfFields_iff.mp hfield
  exact h e (mem_of_mem_ofEntries entries he) f hmem

theorem LivesIn.last? (h : (compose cls id entries).LivesIn memory) {name : String} {u : Value}
    (hu : Ascending.last? name entries = some u) : u.LivesIn memory := by
  rw [← lookup_fields] at hu
  have hmem := (lookup_eq_some_iff_mem String.lt_irrefl _ (ascends_fields entries) name u).mp hu
  exact h.field (fields?_compose cls id entries) hmem

/-- Values of one memory may be compared by the shortcut. -/
theorem rel_beqShared_iff {x y : Option Value} (hx : ∀ u, x = some u → u.LivesIn memory)
    (hy : ∀ v, y = some v → v.LivesIn memory) :
    Option.Rel (fun u v => beqShared u v = true) x y ↔ Option.Rel (fun u v => beq u v = true) x y := by
  cases x with
  | none => cases y <;> simp
  | some u =>
    cases y with
    | none => simp
    | some v => rw [Option.rel_some_some, Option.rel_some_some, beqShared_eq (hx u rfl) (hy v rfl)]

end Composites

/-- Two composites are what their last entries hold: fields are read there and listed in the order of their
names, the comparisons look at what is found under each name, and equal composites have one text. -/
structure ComposeExtensionally (cls cls' : Option Class) (entries entries' : List (String × Value))
    (a b : Value) : Prop where
  reads : ∀ name, a.field? name = last? name entries
  lists : ∃ fields, a.fields? = some fields ∧ ListsEntries fields entries
  record : cls = none → a.record? = a.fields?
  equal : beqShared a b = true ↔ (cls == cls') = true ∧
    ∀ name, Option.Rel (fun u v => beqShared u v = true) (last? name entries) (last? name entries')
  agree : agrees a b = true ↔ (cls == cls') = true ∧
    ∀ name, Option.Rel (fun u v => agrees u v = true) (last? name entries) (last? name entries')
  rendered : beqShared a b = true → a.render = b.render

theorem composites_are_extensional (memory : Memory) (names : Nat → String) (cls cls' : Option Class)
    (id id' : Nat) (entries entries' : List (String × Value))
    (ha : (compose cls id entries).LivesIn memory) (hb : (compose cls' id' entries').LivesIn memory)
    (hnamed : (compose cls id entries).Named names) (hnamed' : (compose cls' id' entries').Named names) :
    ComposeExtensionally cls cls' entries entries' (compose cls id entries)
      (compose cls' id' entries') where
  reads := field?_compose cls id entries
  lists := ⟨_, fields?_compose cls id entries, listsEntries_ofEntries entries⟩
  record := by
    rintro rfl
    rfl
  equal := by
    rw [beqShared_eq ha hb, beq_compose_iff]
    exact and_congr_right fun _ => forall_congr' fun _ =>
      (rel_beqShared_iff (fun _ => ha.last?) fun _ => hb.last?).symm
  agree := agrees_compose_iff cls cls' id id' entries entries'
  rendered h :=
    render_eq_of_beq ⟨ha.declared, hnamed⟩ ⟨hb.declared, hnamed'⟩ ((beqShared_eq ha hb).symm.trans h)

/-- Equal instances of a class: a NaN, and a function that replaces a number and is shown under its name,
which does not change with its parameters. -/
theorem composites_are_extensional_renamed :
    let echo : Body Unit := .program fun args => pure (.ok (args.headD .undefined))
    let made := Engine.define "echo" ["x"] echo (Engine.start ())
    let f := made.1
    let g := f.withParams ["y"]
    let nan := float ⟨0x7ff8000000000000⟩
    let point := Class.root 0 "Point"
    let entries := [("g", int 1), ("n", nan), ("g", function f)]
    let entries' := [("n", nan), ("g", function g)]
    let a := compose (some point) 1 entries
    let b := compose (some point) 2 entries'
    (∃ memory, a.LivesIn memory ∧ b.LivesIn memory) ∧ (∃ names, a.Named names ∧ b.Named names) ∧
      ComposeExtensionally (some point) (some point) entries entries' a b ∧ beqShared a b = true ∧
        agrees a b = false ∧ a.render = b.render := by
  intro echo made f g nan point entries entries' a b
  have hmade : Relation.ReflTransGen Stock.Step .empty
      ⟨3, [point], [b, a, function g, function f, nan, int 1]⟩ := by
    refine Relation.ReflTransGen.tail (.tail (.tail (.tail (.tail (.tail (.single (.root "Point"))
      (.plain (int 1) rfl)) (.plain nan rfl)) (.plain (function f) rfl)) (.plain (function g) rfl))
      (.inst point ?_ entries ?_)) (.inst point ?_ entries' ?_)
    all_goals simp [Stock.empty, Stock.define, Stock.keep, Stock.allocate, point, entries, entries']
  obtain ⟨memory, hlives⟩ := Stock.exists_livesIn hmade
  have ha : a.LivesIn memory := hlives a (by simp)
  have hb : b.LivesIn memory := hlives b (by simp)
  have hmakes : Engine.Makes made.2 [g, f] :=
    .withParams (.define (.start ()) "echo" ["x"] echo) (List.mem_singleton_self f) ["y"]
  obtain ⟨names, hnames⟩ := Engine.exists_names hmakes
  have hnamed : a.Named names := by
    refine named_compose ?_
    simp [entries, Named, parts, int, nan, float, hnames.name_eq f]
  have hnamed' : b.Named names := by
    refine named_compose ?_
    simp [entries', Named, parts, nan, float, hnames.name_eq g]
  have hcompose := composites_are_extensional memory names (some point) (some point) 1 2 entries entries'
    ha hb hnamed hnamed'
  have hequal : beqShared a b = true := by decide +kernel
  exact ⟨⟨memory, ha, hb⟩, ⟨names, hnamed, hnamed'⟩, hcompose, hequal, by decide +kernel,
    hcompose.rendered hequal⟩

end RuntimeContracts.Value
