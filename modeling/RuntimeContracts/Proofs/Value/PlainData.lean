import RuntimeContracts.Proofs.Text.Quoting
import RuntimeContracts.Proofs.Value.Equality
import RuntimeContracts.Value.Inspection

/-!
The detailed text of plain data. Its first letter tells the kind, and what comes then ends where it says: a word,
an integer in front of a bracket, a quoted text, or the texts of the parts, separated by commas and closed by a
bracket. So it can be read back, up to the allocations, whatever follows it, and plain data have the same text
only if they are equal.
-/
namespace RuntimeContracts.Value

/-- The values without floats, instances and functions, at any depth. -/
inductive Plain : Value → Prop
  | undefined : Plain undefined
  | null : Plain null
  | bool (b : Bool) : Plain (bool b)
  | int (n : Int64) : Plain (int n)
  | string (s : String) : Plain (string s)
  | list (id : Nat) {items : List Value} (h : ∀ v ∈ items, Plain v) : Plain (list id items)
  | record (id : Nat) {fields : List (String × Value)} (h : ∀ e ∈ fields, Plain e.2) :
      Plain (record id fields)

section Content

theorem contentOfItems_eq_map (vs : List Value) : contentOfItems vs = vs.map content := by
  induction vs with
  | nil => rfl
  | cons v vs ih => rw [contentOfItems, ih, List.map_cons]

theorem contentOfFields_eq_map (es : List (String × Value)) :
    contentOfFields es = es.map fun e => (e.1, e.2.content) := by
  induction es with
  | nil => rfl
  | cons e es ih => rw [contentOfFields, ih, List.map_cons]

theorem content_list (id : Nat) (items : List Value) : (list id items).content = list 0 (items.map content) :=
  congrArg (list 0) (contentOfItems_eq_map items)

theorem content_record (id : Nat) (fields : List (String × Value)) :
    (record id fields).content = record 0 (fields.map fun e => (e.1, e.2.content)) :=
  congrArg (record 0) (contentOfFields_eq_map fields)

structure Bare (v : Value) : Prop where
  plain : v.Plain
  content : v.content = v

theorem bare_content {v : Value} (hv : v.Plain) : v.content.Bare := by
  induction hv with
  | @list id items _ ih =>
    rw [content_list]
    refine ⟨.list 0 (List.forall_mem_map.mpr fun v hv => (ih v hv).plain), ?_⟩
    rw [content_list, List.map_map]
    exact congrArg (list 0) (List.map_congr_left fun v hv => (ih v hv).content)
  | @record id fields _ ih =>
    rw [content_record]
    refine ⟨.record 0 (List.forall_mem_map.mpr fun e he => (ih e he).plain), ?_⟩
    rw [content_record, List.map_map]
    exact congrArg (record 0) (List.map_congr_left fun e he => Prod.ext rfl (ih e he).content)
  | undefined => exact ⟨.undefined, rfl⟩
  | null => exact ⟨.null, rfl⟩
  | bool b => exact ⟨.bool b, rfl⟩
  | int n => exact ⟨.int n, rfl⟩
  | string s => exact ⟨.string s, rfl⟩

theorem eq_self_of_map_eq {α : Type} {f : α → α} {as : List α} (h : as.map f = as) : ∀ a ∈ as, f a = a :=
  List.map_eq_map_iff.mp (h.trans (List.map_id as).symm)

theorem Bare.items {id : Nat} {items : List Value} (h : (list id items).Bare) :
    id = 0 ∧ ∀ v ∈ items, v.Bare := by
  have hcontent := h.content
  rw [content_list] at hcontent
  obtain ⟨hid, hitems⟩ := Value.list.inj hcontent
  cases h.plain with
  | list _ hplain => exact ⟨hid.symm, fun v hv => ⟨hplain v hv, eq_self_of_map_eq hitems v hv⟩⟩

theorem Bare.fields {id : Nat} {fields : List (String × Value)} (h : (record id fields).Bare) :
    id = 0 ∧ ∀ e ∈ fields, e.2.Bare := by
  have hcontent := h.content
  rw [content_record] at hcontent
  obtain ⟨hid, hfields⟩ := Value.record.inj hcontent
  cases h.plain with
  | record _ hplain =>
    exact ⟨hid.symm, fun e he => ⟨hplain e he, congrArg Prod.snd (eq_self_of_map_eq hfields e he)⟩⟩

end Content

section Rows

def inspectFieldOnto (e : String × Value) (rest : List Char) : List Char :=
  Text.Quoted.quote e.1 (':' :: ' ' :: inspectOnto e.2 rest)

theorem inspectItems_eq_separated (vs : List Value) (rest : List Char) :
    inspectItems vs rest = Text.separated inspectOnto vs rest := by
  induction vs with
  | nil => rfl
  | cons v vs ih =>
    cases vs with
    | nil => rfl
    | cons w vs =>
      change inspectOnto v (',' :: ' ' :: inspectItems (w :: vs) rest) = _
      rw [ih]
      rfl

theorem inspectFields_eq_separated (es : List (String × Value)) (rest : List Char) :
    inspectFields es rest = Text.separated inspectFieldOnto es rest := by
  induction es with
  | nil => rfl
  | cons d es ih =>
    cases es with
    | nil => rfl
    | cons e es =>
      change inspectFieldOnto d (',' :: ' ' :: inspectFields (e :: es) rest) = _
      rw [ih]
      rfl

/-- Items whose texts do not depend on allocations have together one that does not. -/
theorem inspectItems_content {vs : List Value}
    (h : ∀ v ∈ vs, ∀ rest, inspectOnto v.content rest = inspectOnto v rest) (rest : List Char) :
    inspectItems (vs.map content) rest = inspectItems vs rest := by
  rw [inspectItems_eq_separated, inspectItems_eq_separated, Text.separated_map inspectOnto h]

theorem inspectFields_content {es : List (String × Value)}
    (h : ∀ e ∈ es, ∀ rest, inspectOnto e.2.content rest = inspectOnto e.2 rest) (rest : List Char) :
    inspectFields (es.map fun e => (e.1, e.2.content)) rest = inspectFields es rest := by
  have hfields : ∀ e ∈ es, ∀ rest, inspectFieldOnto (e.1, e.2.content) rest = inspectFieldOnto e rest :=
    fun e he rest => by rw [inspectFieldOnto, inspectFieldOnto, h e he]
  rw [inspectFields_eq_separated, inspectFields_eq_separated, Text.separated_map inspectFieldOnto hfields]

/-- The text of plain data does not depend on allocations. -/
theorem inspectOnto_content {v : Value} (hv : v.Plain) :
    ∀ rest, inspectOnto v.content rest = inspectOnto v rest := by
  induction hv with
  | @list id items _ ih =>
    intro rest
    rw [content_list]
    exact congrArg ("List([".toList ++ ·) (inspectItems_content ih _)
  | @record id fields _ ih =>
    intro rest
    rw [content_record]
    exact congrArg ("Map(\x7b".toList ++ ·) (inspectFields_content ih _)
  | _ => exact fun _ => rfl

end Rows

section Reading

def kindOf? : Char → Option Kind
  | 'U' => some .undefined
  | 'N' => some .null
  | 'B' => some .bool
  | 'I' => some .number
  | 'S' => some .string
  | 'L' => some .list
  | 'M' => some .record
  | _ => none

theorem Plain.kindOf?_head {v : Value} (hv : v.Plain) (rest : List Char) :
    (inspectOnto v rest).head?.bind kindOf? = some v.kind := by
  cases hv <;> rfl

abbrev Reads (v : Value) : Prop := Text.ReadsBack inspectOnto (fun _ => false) Bare v

/-- The texts of the items can be read back up to the bracket that closes them. -/
theorem items_inj {vs ws : List Value} (hvs : ∀ v ∈ vs, v.Bare) (hws : ∀ w ∈ ws, w.Bare)
    (hread : ∀ v ∈ vs, v.Reads) {rest rest' : List Char}
    (h : inspectItems vs (']' :: rest) = inspectItems ws (']' :: rest')) : vs = ws ∧ rest = rest' := by
  rw [inspectItems_eq_separated, inspectItems_eq_separated] at h
  refine Text.separated_inj inspectOnto rfl rfl (by decide) (fun v hv rest hclose => ?_) hvs hws hread h
  have hkind := hv.plain.kindOf?_head rest
  rw [hclose] at hkind
  cases hkind

theorem fields_inj {es ds : List (String × Value)} (hes : ∀ e ∈ es, e.2.Bare) (hds : ∀ d ∈ ds, d.2.Bare)
    (hread : ∀ e ∈ es, e.2.Reads) {rest rest' : List Char}
    (h : inspectFields es ('\x7d' :: rest) = inspectFields ds ('\x7d' :: rest')) : es = ds ∧ rest = rest' := by
  rw [inspectFields_eq_separated, inspectFields_eq_separated] at h
  have hfields : ∀ e ∈ es, Text.ReadsBack inspectFieldOnto (fun _ => false) (fun d => d.2.Bare) e := by
    intro e he d hd rest rest' hrest hrest' htext
    obtain ⟨hname, hafter⟩ := Text.Quoted.quote_inj htext
    have hvalue := (List.cons.inj (List.cons.inj hafter).2).2
    obtain ⟨hsame, hend⟩ := hread e he d.2 hd rest rest' hrest hrest' hvalue
    exact ⟨Prod.ext hname hsame, hend⟩
  refine Text.separated_inj inspectFieldOnto rfl rfl (by decide) (fun e _ rest hclose => ?_) hes hds hfields h
  exact absurd (Option.some.inj hclose) (by decide)

/-- Data can be read back that can be told from those of their kind. -/
theorem reads_of_alike {v : Value} (hv : v.Plain) (h : ∀ w, w.Bare → v.kind = w.kind → ∀ rest rest',
    inspectOnto v rest = inspectOnto w rest' → v = w ∧ rest = rest') : v.Reads := by
  intro w hw rest rest' _ _ htext
  have hkind := hv.kindOf?_head rest
  rw [htext, hw.plain.kindOf?_head rest'] at hkind
  exact h w hw (Option.some.inj hkind).symm rest rest' htext

/-- Both Booleans have a word of their own. -/
theorem boolText_inj {b c : Bool} {rest rest' : List Char} (h : boolText b rest = boolText c rest') :
    b = c ∧ rest = rest' := by
  cases b <;> cases c <;> simp_all [boolText]

theorem int_inj {m n : Int64} {rest rest' : List Char}
    (h : inspectOnto (int m) rest = inspectOnto (int n) rest') : m = n ∧ rest = rest' := by
  change "Int(".toList ++ Decimal.ofInt m.toInt ++ ')' :: rest =
    "Int(".toList ++ Decimal.ofInt n.toInt ++ ')' :: rest' at h
  rw [List.append_assoc, List.append_assoc] at h
  have hclosed (more : List Char) : Text.Stops Char.isAlphanum (')' :: more) :=
    Text.stops_cons (by decide) more
  obtain ⟨hnumber, hend⟩ := Decimal.ofInt_append_inj (hclosed _) (hclosed _) (List.append_cancel_left h)
  exact ⟨Int64.toInt_inj.mp hnumber, (List.cons.inj hend).2⟩

/-- The text of plain data can be read back, whatever follows it. -/
theorem Bare.reads {v : Value} (hbare : v.Bare) : v.Reads := by
  have hv := hbare.plain
  induction hv with
  | undefined =>
    refine reads_of_alike .undefined fun w hw hkind rest rest' htext => ?_
    cases hw.plain with
    | undefined => exact ⟨rfl, List.append_cancel_left htext⟩
    | _ => cases hkind
  | null =>
    refine reads_of_alike .null fun w hw hkind rest rest' htext => ?_
    cases hw.plain with
    | null => exact ⟨rfl, List.append_cancel_left htext⟩
    | _ => cases hkind
  | bool b =>
    refine reads_of_alike (.bool b) fun w hw hkind rest rest' htext => ?_
    cases hw.plain with
    | bool c =>
      obtain ⟨rfl, hend⟩ := boolText_inj (List.append_cancel_left htext)
      exact ⟨rfl, (List.cons.inj hend).2⟩
    | _ => cases hkind
  | int m =>
    refine reads_of_alike (.int m) fun w hw hkind rest rest' htext => ?_
    cases hw.plain with
    | int n =>
      obtain ⟨rfl, hend⟩ := int_inj htext
      exact ⟨rfl, hend⟩
    | _ => cases hkind
  | string s =>
    refine reads_of_alike (.string s) fun w hw hkind rest rest' htext => ?_
    cases hw.plain with
    | string t =>
      obtain ⟨rfl, hend⟩ := Text.Quoted.quote_inj (List.append_cancel_left htext)
      exact ⟨rfl, (List.cons.inj hend).2⟩
    | _ => cases hkind
  | list id hitems ih =>
    obtain ⟨rfl, hbares⟩ := hbare.items
    refine reads_of_alike (.list 0 hitems) fun w hw hkind rest rest' htext => ?_
    cases hw.plain with
    | list id' _ =>
      obtain ⟨rfl, hbares'⟩ := hw.items
      obtain ⟨rfl, hend⟩ := items_inj hbares hbares' (fun v hv => ih v hv (hbares v hv))
        (List.append_cancel_left htext)
      exact ⟨rfl, (List.cons.inj hend).2⟩
    | _ => cases hkind
  | record id hfields ih =>
    obtain ⟨rfl, hbares⟩ := hbare.fields
    refine reads_of_alike (.record 0 hfields) fun w hw hkind rest rest' htext => ?_
    cases hw.plain with
    | record id' _ =>
      obtain ⟨rfl, hbares'⟩ := hw.fields
      obtain ⟨rfl, hend⟩ := fields_inj hbares hbares' (fun e he => ih e he (hbares e he))
        (List.append_cancel_left htext)
      exact ⟨rfl, (List.cons.inj hend).2⟩
    | _ => cases hkind

/-- Among plain data the detailed text is that of one content only. -/
theorem inspect_eq_iff {a b : Value} (ha : a.Plain) (hb : b.Plain) :
    a.inspect = b.inspect ↔ (a == b) = true := by
  have htexts : a.inspect = b.inspect ↔ inspectOnto a.content [] = inspectOnto b.content [] := by
    rw [inspectOnto_content ha, inspectOnto_content hb]
    exact String.ofList_inj
  have hcontents : (a == b) = true ↔ a.content = b.content := beq_iff_content a b
  rw [htexts, hcontents]
  refine ⟨fun h => ?_, fun h => by rw [h]⟩
  exact ((bare_content ha).reads b.content (bare_content hb) [] [] trivial trivial h).1

theorem inspectKey_eq_iff {xs ys : List Value} (hxs : ∀ v ∈ xs, v.Plain) (hys : ∀ v ∈ ys, v.Plain) :
    inspectKey xs = inspectKey ys ↔ beqItems xs ys = true := by
  have htexts : inspectKey xs = inspectKey ys ↔
      inspectItems (xs.map content) [']', ')'] = inspectItems (ys.map content) [']', ')'] := by
    rw [inspectItems_content fun v hv => inspectOnto_content (hxs v hv),
      inspectItems_content fun v hv => inspectOnto_content (hys v hv)]
    exact String.ofList_inj.trans (List.append_right_inj _)
  rw [htexts, beqItems_iff_content, contentOfItems_eq_map, contentOfItems_eq_map]
  refine ⟨fun h => ?_, fun h => by rw [h]⟩
  have hbare {vs : List Value} (hvs : ∀ v ∈ vs, v.Plain) : ∀ v ∈ vs.map content, v.Bare :=
    List.forall_mem_map.mpr fun v hv => bare_content (hvs v hv)
  exact (items_inj (hbare hxs) (hbare hys) (fun v hv => (hbare hxs v hv).reads) h).1

end Reading

/-- Plain data have the same detailed text exactly if they are equal, and so have argument lists of plain data
as the keys of cached results. -/
theorem detailed_text_identifies_plain_data :
    (∀ a b : Value, a.Plain → b.Plain → (a.inspect = b.inspect ↔ (a == b) = true)) ∧
    ∀ xs ys : List Value, (∀ v ∈ xs, v.Plain) → (∀ v ∈ ys, v.Plain) →
      (inspectKey xs = inspectKey ys ↔ beqItems xs ys = true) :=
  ⟨fun _ _ => inspect_eq_iff, fun _ _ => inspectKey_eq_iff⟩

/-- A mark that is escaped by its number, and that escape spelled out; and one text that would look like two
without the escapes of its quotes. -/
theorem detailed_text_identifies_plain_data_escapes :
    let mark := record 1 [("\"k\": ", list 2 [string "\u0301", int (-1)]), ("l", undefined)]
    let copy := record 3 [("\"k\": ", list 4 [string "\u0301", int (-1)]), ("l", undefined)]
    let spelled := record 5 [("\"k\": ", list 6 [string "\\u\x7b301\x7d", int (-1)]), ("l", undefined)]
    let one := string "\"), Str(\""
    mark.Plain ∧ copy.Plain ∧ spelled.Plain ∧ mark.inspect = copy.inspect ∧ mark.inspect ≠ spelled.inspect ∧
      inspectKey [one, bool true] ≠ inspectKey [string "", string "", bool true] := by
  intro mark copy spelled one
  have hplain (i j : Nat) (s : String) :
      (record i [("\"k\": ", list j [string s, int (-1)]), ("l", undefined)]).Plain := by
    have hlist : (list j [string s, int (-1)]).Plain :=
      .list j (List.forall_mem_cons.mpr ⟨.string s, List.forall_mem_singleton.mpr (.int (-1))⟩)
    exact .record i (List.forall_mem_cons.mpr ⟨hlist, List.forall_mem_singleton.mpr .undefined⟩)
  have hone : ∀ v ∈ [one, bool true], v.Plain := by simp [one, Plain.string, Plain.bool]
  have htwo : ∀ v ∈ [string "", string "", bool true], v.Plain := by simp [Plain.string, Plain.bool]
  obtain ⟨hvalues, hkeys⟩ := detailed_text_identifies_plain_data
  have hcopy : (mark == copy) = true := rfl
  have hspelled : (mark == spelled) = false := rfl
  have hargs : beqItems [one, bool true] [string "", string "", bool true] = false := rfl
  refine ⟨hplain _ _ _, hplain _ _ _, hplain _ _ _, ?_, fun h => ?_, fun h => ?_⟩
  · exact (hvalues mark copy (hplain _ _ _) (hplain _ _ _)).mpr hcopy
  · exact Bool.false_ne_true (hspelled.symm.trans ((hvalues _ _ (hplain _ _ _) (hplain _ _ _)).mp h))
  · exact Bool.false_ne_true (hargs.symm.trans ((hkeys _ _ hone htwo).mp h))

end RuntimeContracts.Value
