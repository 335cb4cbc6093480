import RuntimeContracts.Proofs.Machine.Bodies
import RuntimeContracts.Proofs.Machine.Depth

/-!
A gauge in front of a memoized function. With a gauge the memoizer does not call its function but a new one, which
nothing else calls and which does nothing but call the old one. The runs are those without it, and in their journals
the gauge has started wherever the memoizer has had its function executed. So these executions can be counted, apart
from all others and whatever the memoizer itself reports.
-/
namespace RuntimeContracts

variable {σ α : Type}

def Entry.missOf (i : Nat) (e : Entry) : Option Key :=
  match e.event with
  | .cache j _ (.missed args) => if j = i then some args else none
  | _ => none

/-- The entry, and the start of the gauge after it if it is a miss of memoizer `i`, newest first. -/
def Entry.marked (i gauge : Nat) (e : Entry) : List Entry :=
  match e.missOf i with
  | none => [e]
  | some args => [⟨.started gauge args, e.within⟩, e]

def Code.gauge (code : Code σ) (m : Memoizer) : Callable := ⟨m.function.name, m.function.params, code.bodies.size⟩

/-- The code in which memoizer `i` calls its function through a gauge. -/
def Code.gauged (code : Code σ) (i : Nat) (m : Memoizer) : Code σ where
  bodies := code.bodies.push (.program fun args => Program.call m.function args)
  memoizers := code.memoizers.setIfInBounds i ⟨code.gauge m, m.policy⟩

def World.withJournal (w : World σ) (journal : List Entry) : World σ := { w with journal := journal }

namespace Entry

variable {i gauge : Nat} {entries : List Entry}

def Plain (i gauge : Nat) (e : Entry) : Prop := e.missOf i = none ∧ e.startOf gauge = none

theorem startOf_started (body : Nat) (args : Key) (names : List String) :
    startOf body ⟨.started body args, names⟩ = some args := if_pos rfl

/-- Where nothing was missed, no start of the gauge is added. -/
theorem flatMap_marked_of_plain (h : ∀ e ∈ entries, e.Plain i gauge) :
    entries.flatMap (marked i gauge) = entries := by
  induction entries with
  | nil => rfl
  | cons e rest ih =>
    have hrest := ih fun e' he' => h e' (List.mem_cons_of_mem e he')
    rw [List.flatMap_cons, hrest, marked, (h e (List.mem_cons_self ..)).1]
    rfl

/-- Without the starts of the gauge the marked journal is the plain one. -/
theorem filter_flatMap_marked (h : ∀ e ∈ entries, e.startOf gauge = none) :
    (entries.flatMap (marked i gauge)).filter (fun e => (e.startOf gauge).isNone) = entries := by
  induction entries with
  | nil => rfl
  | cons e rest ih =>
    have hfirst : (marked i gauge e).filter (fun e => (e.startOf gauge).isNone) = [e] := by
      have hstart := h e (List.mem_cons_self ..)
      unfold marked
      cases e.missOf i with
      | none => simp [hstart]
      | some args => simp [hstart, startOf_started]
    rw [List.flatMap_cons, List.filter_append, hfirst, ih fun e' he' => h e' (List.mem_cons_of_mem e he')]
    rfl

/-- In a whole run the gauge has started on the arguments of the misses, in their order. -/
theorem filterMap_flatMap_marked (h : ∀ e ∈ entries, e.startOf gauge = none) :
    (entries.flatMap (marked i gauge)).filterMap (startOf gauge) =
      (entries.flatMap (marked i gauge)).filterMap (missOf i) := by
  induction entries with
  | nil => rfl
  | cons e rest ih =>
    have hfirst : (marked i gauge e).filterMap (startOf gauge) = (marked i gauge e).filterMap (missOf i) := by
      have hstart := h e (List.mem_cons_self ..)
      unfold marked
      cases hmiss : e.missOf i with
      | none => simp [hstart, hmiss]
      | some args =>
        have hother : missOf i ⟨.started gauge args, e.within⟩ = none := rfl
        simp [hstart, hmiss, startOf_started, hother]
    rw [List.flatMap_cons, List.filterMap_append, List.filterMap_append, hfirst,
      ih fun e' he' => h e' (List.mem_cons_of_mem e he')]

/-- Up to any place that does not come right after a miss, the gauge has started on the arguments of the misses. -/
theorem filterMap_of_suffix (h : ∀ e ∈ entries, e.startOf gauge = none) {past : List Entry}
    (hpast : past <:+ entries.flatMap (marked i gauge)) (hnewest : ∀ e, past.head? = some e → e.missOf i = none) :
    past.filterMap (startOf gauge) = past.filterMap (missOf i) := by
  induction entries with
  | nil =>
    obtain rfl : past = [] := List.suffix_nil.mp hpast
    rfl
  | cons e rest ih =>
    have hwhole := filterMap_flatMap_marked (i := i) h
    have hrest := ih fun e' he' => h e' (List.mem_cons_of_mem e he')
    rw [List.flatMap_cons] at hpast hwhole
    cases hmiss : e.missOf i with
    | none =>
      have hmarked : marked i gauge e = [e] := by rw [marked, hmiss]
      rw [hmarked] at hpast hwhole
      rcases List.suffix_cons_iff.mp hpast with rfl | hpast
      · exact hwhole
      · exact hrest hpast
    | some args =>
      have hmarked : marked i gauge e = [⟨.started gauge args, e.within⟩, e] := by rw [marked, hmiss]
      rw [hmarked] at hpast hwhole
      rcases List.suffix_cons_iff.mp hpast with rfl | hpast
      · exact hwhole
      · rcases List.suffix_cons_iff.mp hpast with rfl | hpast
        · exact absurd (hmiss.symm.trans (hnewest e rfl)) (Option.some_ne_none args)
        · exact hrest hpast

end Entry

namespace World

variable {i gauge : Nat} {w : World σ}

/-- To change the world like this adds plain entries to the journal, whatever there is in it already. -/
def Notes (i gauge : Nat) (change : World σ → World σ) (w : World σ) : Prop :=
  ∃ noted, (∀ e ∈ noted, Entry.Plain i gauge e) ∧
    ∀ past, change (w.withJournal past) = (change w).withJournal (noted ++ past)

theorem Notes.comp {change change' : World σ → World σ} (h : w.Notes i gauge change)
    (h' : (change w).Notes i gauge change') : w.Notes i gauge fun w => change' (change w) := by
  obtain ⟨noted, hplain, hchange⟩ := h
  obtain ⟨noted', hplain', hchange'⟩ := h'
  refine ⟨noted' ++ noted, fun e he => ?_, fun past => ?_⟩
  · exact (List.mem_append.mp he).elim (hplain' e) (hplain e)
  · change change' (change (w.withJournal past)) = _
    rw [hchange, hchange', List.append_assoc]

theorem notes_record {event : Event} (h : Entry.Plain i gauge ⟨event, w.active⟩) :
    w.Notes i gauge (World.record · event) :=
  ⟨[⟨event, w.active⟩], by simpa using h, fun _ => rfl⟩

variable {j : Nat} (m : Memoizer)

theorem plain_cache {step : CacheStep} (h : ∀ args, step ≠ .missed args) (names : List String) :
    Entry.Plain i gauge ⟨.cache j m.function.name step, names⟩ := by
  refine ⟨?_, rfl⟩
  cases step with
  | missed args => exact absurd rfl (h args)
  | _ => rfl

theorem notes_note {step : CacheStep} (h : ∀ args, step ≠ .missed args) :
    w.Notes i gauge (World.note · j m step) := notes_record (plain_cache m h w.active)

theorem notes_noteAll {steps : List CacheStep} (h : ∀ s ∈ steps, ∀ args, s ≠ .missed args) :
    w.Notes i gauge (World.noteAll · j m steps) := by
  induction steps generalizing w with
  | nil => exact ⟨[], by simp, fun _ => rfl⟩
  | cons s rest ih =>
    have hfirst : w.Notes i gauge (World.note · j m s) := notes_note m (h s (List.mem_cons_self ..))
    exact hfirst.comp (ih fun t ht => h t (List.mem_cons_of_mem s ht))

/-- A store notes evictions and itself, but no miss. -/
theorem notes_storeIn (args : Key) (v : Value) : w.Notes i gauge (World.storeIn · j m args v) := by
  have hset : w.Notes i gauge (World.setCache · j ((w.cache j).store m.policy args v).cache) :=
    ⟨[], by simp, fun _ => rfl⟩
  suffices hsteps : ∀ s ∈ (w.cache j).storing m.policy args v, ∀ args, s ≠ .missed args by
    obtain ⟨noted, hplain, hchange⟩ := hset.comp (notes_noteAll m hsteps)
    exact ⟨noted, hplain, hchange⟩
  intro s hs args
  rcases List.mem_append.mp hs with hevicted | hstored
  · obtain ⟨k, -, rfl⟩ := List.mem_map.mp hevicted
    exact nofun
  · obtain rfl := List.mem_singleton.mp hstored
    exact nofun

theorem notes_concluding (args : Key) (outcome : Outcome) :
    w.Notes i gauge (World.concluding · j m args outcome) := by
  have hanswered : w.Notes i gauge (World.note · j m (.answered args outcome)) := notes_note m nofun
  cases outcome with
  | error e => exact hanswered
  | ok v => exact hanswered.comp (notes_storeIn m args v)

theorem notes_hitting (args : Key) (v : Value) : w.Notes i gauge (World.hitting · j m args v) := by
  let entry (step : CacheStep) : Entry := ⟨.cache j m.function.name step, m.function.name :: w.active⟩
  have hhit : Entry.Plain i gauge (entry (.hit args v)) := plain_cache m (by simp) _
  have hcalled : Entry.Plain i gauge (entry (.called args)) := plain_cache m (by simp) _
  refine ⟨[entry (.hit args v), entry (.called args)], ?_, fun _ => rfl⟩
  exact List.forall_mem_cons.mpr ⟨hhit, List.forall_mem_singleton.mpr hcalled⟩

end World

namespace Machine

/-- The second computation does what the first one does, with the starts of the gauge in the journal. -/
def gauging (i gauge : Nat) : Simulation (Machine σ) (Machine σ) where
  Rel x y := ∀ w a w', x w = some (a, w') → ∃ new, w'.journal = new ++ w.journal ∧
    (∀ e ∈ new, e.startOf gauge = none) ∧
    ∀ past, y (w.withJournal past) = some (a, w'.withJournal (new.flatMap (Entry.marked i gauge) ++ past))
  rel_pure a w b w' h := by
    obtain ⟨rfl, rfl⟩ := Prod.mk.inj (Option.some.inj h)
    exact ⟨[], rfl, by simp, fun _ => rfl⟩
  rel_bind := by
    intro α β x y k l hx hk w b w' h
    obtain ⟨a, w₁, hx', hk'⟩ := bind_eq_some x k w w' b h
    obtain ⟨new, hnew, hstarts, hy⟩ := hx w a w₁ hx'
    obtain ⟨new', hnew', hstarts', hl⟩ := hk a w₁ b w' hk'
    refine ⟨new' ++ new, ?_, fun e he => ?_, fun past => ?_⟩
    · rw [hnew', hnew, List.append_assoc]
    · exact (List.mem_append.mp he).elim (hstarts' e) (hstarts e)
    · rw [bind_apply, hy, Option.bind_some, hl, List.flatMap_append, List.append_assoc]

section Gauging

variable {i gauge : Nat}

/-- A computation with a result that the journal has no part in, and that changes the world by plain entries. -/
theorem gauging_of_notes {x y : Machine σ α} (h : ∀ w a w', x w = some (a, w') →
    ∃ change, w' = change w ∧ w.Notes i gauge change ∧
      ∀ past, y (w.withJournal past) = some (a, change (w.withJournal past))) :
    (gauging i gauge).Rel x y := by
  intro w a w' hrun
  obtain ⟨change, rfl, ⟨noted, hplain, hchange⟩, hy⟩ := h w a w' hrun
  refine ⟨noted, ?_, fun e he => (hplain e he).2, fun past => ?_⟩
  · exact congrArg World.journal (hchange w.journal)
  · rw [hy, hchange, Entry.flatMap_marked_of_plain hplain]

theorem gauging_record {event : Event} (h : ∀ names, Entry.Plain i gauge ⟨event, names⟩) :
    (gauging i gauge).Rel (record event : Machine σ Unit) (record event) := by
  refine gauging_of_notes fun w a w' hrun => ⟨(World.record · event), ?_, World.notes_record (h w.active), ?_⟩
  · exact (congrArg Prod.snd (Option.some.inj hrun)).symm
  · exact fun _ => rfl

theorem gauging_within (name : String) {x y : Machine σ α} (h : (gauging i gauge).Rel x y) :
    (gauging i gauge).Rel (within name x) (within name y) := by
  intro w a w' hrun
  rw [within_apply] at hrun
  obtain ⟨⟨b, w₁⟩, hx, hr⟩ := Option.map_eq_some_iff.mp hrun
  obtain ⟨rfl, rfl⟩ := Prod.mk.inj hr
  obtain ⟨new, hnew, hstarts, hy⟩ := h _ b w₁ hx
  refine ⟨new, hnew, hstarts, fun past => ?_⟩
  rw [within_apply]
  change (y ((w.withActive (name :: w.active)).withJournal past)).map _ = _
  rw [hy]
  rfl

def gaugingChecks (i gauge : Nat) : Checking σ where
  outer := gauging i gauge
  inner := gauging i gauge
  inner_of_outer h := h
  rel_within name _ _ h := gauging_within name h
  rel_raised _ _ := gauging_record fun _ => ⟨rfl, rfl⟩
  rel_ignore _ := gauging_record fun _ => ⟨rfl, rfl⟩

end Gauging

section Memoizers

variable {code : Code σ} {i : Nat} {m : Memoizer} (hm : code.memoizers[i]? = some m)

include hm

/-- The memoizers of the code with a gauge are those of the code, but for what one of them calls. -/
theorem exists_memoizer_gauged {j : Nat} {m' : Memoizer} (hj : code.memoizers[j]? = some m') :
    ∃ params body, (code.gauged i m).memoizers[j]? = some ⟨⟨m'.function.name, params, body⟩, m'.policy⟩ ∧
      (j = i ∧ m' = m ∧ (⟨m'.function.name, params, body⟩ : Callable) = code.gauge m ∨
        j ≠ i ∧ (⟨m'.function.name, params, body⟩ : Callable) = m'.function) := by
  by_cases hji : j = i
  · subst j
    obtain rfl : m = m' := Option.some.inj (hm.symm.trans hj)
    obtain ⟨hbound, -⟩ := Array.getElem?_eq_some_iff.mp hm
    refine ⟨m.function.params, code.bodies.size, ?_, .inl ⟨rfl, rfl, rfl⟩⟩
    exact Array.getElem?_setIfInBounds_self_of_lt hbound
  · refine ⟨m'.function.params, m'.function.body, ?_, .inr ⟨hji, rfl⟩⟩
    exact (Array.getElem?_setIfInBounds_ne (Ne.symm hji)).trans hj

/-- A direct use of a memoizer. -/
theorem gauging_memoizer (j : Nat) (k : Memoizer → Machine σ α)
    (h : ∀ m' params body,
      (gauging i code.bodies.size).Rel (k m') (k ⟨⟨m'.function.name, params, body⟩, m'.policy⟩)) :
    (gauging i code.bodies.size).Rel (memoizer code j >>= k) (memoizer (code.gauged i m) j >>= k) := by
  intro w a w' hrun
  obtain ⟨m', w₁, hmem, hk⟩ := bind_eq_some _ k w w' a hrun
  obtain ⟨m'', hj, hr⟩ := Option.map_eq_some_iff.mp hmem
  obtain ⟨rfl, rfl⟩ := Prod.mk.inj hr
  obtain ⟨params, body, hj', -⟩ := exists_memoizer_gauged hm hj
  obtain ⟨new, hnew, hstarts, hgauged⟩ := h m'' params body w a w' hk
  refine ⟨new, hnew, hstarts, fun past => ?_⟩
  rw [bind_apply, memoizer_apply _ _ _ _ hj']
  exact hgauged past

theorem gauging_lookup (j : Nat) (args : Key) :
    (gauging i code.bodies.size).Rel (lookup code j args) (lookup (code.gauged i m) j args) := by
  refine gauging_memoizer hm j _ fun m' params body => gauging_of_notes fun w a w' hrun => ?_
  obtain ⟨rfl, rfl⟩ := Prod.mk.inj (Option.some.inj hrun)
  exact ⟨_, rfl, World.notes_note m' (by simp), fun _ => rfl⟩

theorem gauging_size (j : Nat) : (gauging i code.bodies.size).Rel (size code j) (size (code.gauged i m) j) := by
  refine gauging_memoizer hm j _ fun m' params body => gauging_of_notes fun w a w' hrun => ?_
  obtain ⟨rfl, rfl⟩ := Prod.mk.inj (Option.some.inj hrun)
  exact ⟨_, rfl, World.notes_note m' (by simp), fun _ => rfl⟩

theorem gauging_clear (j : Nat) : (gauging i code.bodies.size).Rel (clear code j) (clear (code.gauged i m) j) := by
  refine gauging_memoizer hm j _ fun m' params body => gauging_of_notes fun w a w' hrun => ?_
  have hset : w.Notes i code.bodies.size (World.setCache · j Cache.empty) := ⟨[], by simp, fun _ => rfl⟩
  obtain rfl : (w.setCache j Cache.empty).note j m' (.cleared (w.cache j).size) = w' :=
    congrArg Prod.snd (Option.some.inj hrun)
  exact ⟨_, rfl, hset.comp (World.notes_note m' (by simp)), fun _ => rfl⟩

theorem gauging_store (j : Nat) (args : Key) (v : Value) :
    (gauging i code.bodies.size).Rel (memoizer code j >>= fun m' => store j m' args v)
      (memoizer (code.gauged i m) j >>= fun m' => store j m' args v) := by
  refine gauging_memoizer hm j _ fun m' params body => gauging_of_notes fun w a w' hrun => ?_
  rw [store_apply] at hrun
  obtain rfl : w.storeIn j m' args v = w' := congrArg Prod.snd (Option.some.inj hrun)
  exact ⟨_, rfl, World.notes_storeIn m' args v, fun past => store_apply j m' args v (w.withJournal past)⟩

section Calls

variable {call call' inner : Caller σ}
  (hcall : ∀ f args, (gauging i code.bodies.size).Rel (call f args) (call' f args))
  (hinner : ∀ args, (gauging i code.bodies.size).Rel (call m.function args) (inner m.function args))
  (hgauge : ∀ args w,
    call' (code.gauge m) args w = inner m.function args (w.record (.started code.bodies.size args)))

include hcall hinner hgauge

/-- What a memoized call asks, with the gauge in between if it is one of memoizer `i`. -/
theorem gauging_asked {j : Nat} {m' : Memoizer} {f : Callable}
    (hf : j = i ∧ m' = m ∧ f = code.gauge m ∨ j ≠ i ∧ f = m'.function) (args : Key) (w w₁ : World σ)
    (outcome : Outcome) (hrun : call m'.function args (w.missing j m' args) = some (outcome, w₁)) :
    ∃ new, w₁.journal = new ++ w.journal ∧ (∀ e ∈ new, e.startOf code.bodies.size = none) ∧
      ∀ past, call' f args ((w.withJournal past).missing j m' args) =
        some (outcome, w₁.withJournal (new.flatMap (Entry.marked i code.bodies.size) ++ past)) := by
  let entry (step : CacheStep) : Entry := ⟨.cache j m'.function.name step, m'.function.name :: w.active⟩
  let begun : List Entry := [entry (.missed args), entry (.called args)]
  have hbegun : ∀ e ∈ begun, e.startOf code.bodies.size = none :=
    List.forall_mem_cons.mpr ⟨rfl, List.forall_mem_singleton.mpr rfl⟩
  have hgrown {new : List Entry} (hnew : w₁.journal = new ++ (w.missing j m' args).journal) :
      w₁.journal = (new ++ begun) ++ w.journal := by
    rw [hnew, List.append_assoc]
    rfl
  rcases hf with ⟨rfl, rfl, rfl⟩ | ⟨hj, rfl⟩
  · obtain ⟨new, hnew, hstarts, hanswer⟩ := hinner args _ _ _ hrun
    refine ⟨new ++ begun, hgrown hnew, fun e he => ?_, fun past => ?_⟩
    · exact (List.mem_append.mp he).elim (hstarts e) (hbegun e)
    · let start : Entry := ⟨.started code.bodies.size args, m'.function.name :: w.active⟩
      have hmarked : begun.flatMap (Entry.marked j code.bodies.size) = start :: begun := by
        simp [begun, entry, start, Entry.marked, Entry.missOf]
      rw [hgauge, List.flatMap_append, hmarked, List.append_assoc]
      exact hanswer (start :: begun ++ past)
  · obtain ⟨new, hnew, hstarts, hanswer⟩ := hcall m'.function args _ _ _ hrun
    refine ⟨new ++ begun, hgrown hnew, fun e he => ?_, fun past => ?_⟩
    · exact (List.mem_append.mp he).elim (hstarts e) (hbegun e)
    · have hmarked : begun.flatMap (Entry.marked i code.bodies.size) = begun := by
        simp [begun, entry, Entry.marked, Entry.missOf, hj]
      rw [List.flatMap_append, hmarked, List.append_assoc]
      exact hanswer (begun ++ past)

/-- A memoized call starts the gauge exactly if it is one of memoizer `i` that has missed. -/
theorem gauging_callMemoized (j : Nat) (args : Key) : (gauging i code.bodies.size).Rel
    (callMemoized code call j args) (callMemoized (code.gauged i m) call' j args) := by
  intro w outcome w' hrun
  cases hj : code.memoizers[j]? with
  | none =>
    rw [callMemoized_eq_none code call j args w hj] at hrun
    cases hrun
  | some m' =>
    obtain ⟨params, body, hj', hf⟩ := exists_memoizer_gauged hm hj
    have hgauged (past : List Entry) := callMemoized_eq _ call' j _ args (w.withJournal past) hj'
    rw [callMemoized_eq code call j m' args w hj] at hrun
    cases hlookup : (w.cache j).lookup args with
    | some v =>
      rw [hlookup] at hrun
      obtain ⟨rfl, rfl⟩ := Prod.mk.inj (Option.some.inj hrun)
      obtain ⟨noted, hplain, hchange⟩ := World.notes_hitting (i := i) (w := w) m' args v
      refine ⟨noted, congrArg World.journal (hchange w.journal), fun e he => (hplain e he).2, fun past => ?_⟩
      have hlookup' : ((w.withJournal past).cache j).lookup args = some v := hlookup
      rw [hgauged, hlookup', Entry.flatMap_marked_of_plain hplain, ← hchange]
      rfl
    | none =>
      rw [hlookup] at hrun
      obtain ⟨⟨answer, w₁⟩, hcalled, hr⟩ := Option.map_eq_some_iff.mp hrun
      obtain ⟨rfl, rfl⟩ := Prod.mk.inj hr
      obtain ⟨new, hnew, hstarts, hasked⟩ := gauging_asked hm hcall hinner hgauge hf args w w₁ answer hcalled
      obtain ⟨noted, hplain, hchange⟩ := World.notes_concluding (i := i) (w := w₁) m' args answer
      refine ⟨noted ++ new, ?_, fun e he => ?_, fun past => ?_⟩
      · have hgrown := congrArg World.journal (hchange w₁.journal)
        exact hgrown.trans (by rw [World.withJournal, hnew, List.append_assoc])
      · exact (List.mem_append.mp he).elim (fun he => (hplain e he).2) (hstarts e)
      · have hlookup' : ((w.withJournal past).cache j).lookup args = none := hlookup
        rw [hgauged, hlookup', List.flatMap_append, Entry.flatMap_marked_of_plain hplain, List.append_assoc]
        change Option.map _ (call' _ args ((w.withJournal past).missing j m' args)) = _
        rw [hasked past]
        exact congrArg (fun w₂ : World σ => some (answer, w₂.withActive w.active)) (hchange _)

theorem gauging_answer (r : Request σ) :
    (gauging i code.bodies.size).Rel (answer code call r) (answer (code.gauged i m) call' r) := by
  cases r with
  | read => exact fun w a w' hrun => by cases hrun; exact ⟨[], rfl, by simp, fun _ => rfl⟩
  | write s => exact fun w a w' hrun => by cases hrun; exact ⟨[], rfl, by simp, fun _ => rfl⟩
  | fresh => exact fun w a w' hrun => by cases hrun; exact ⟨[], rfl, by simp, fun _ => rfl⟩
  | call f args => exact hcall f args
  | fits s arg => exact (gaugingChecks i code.bodies.size).rel_fits hcall s arg
  | callValidated v args => exact (gaugingChecks i code.bodies.size).rel_callValidated hcall v args
  | callMemoized j args => exact gauging_callMemoized hm hcall hinner hgauge j args
  | lookup j args => exact gauging_lookup hm j args
  | store j args v => exact gauging_store hm j args v
  | clear j => exact gauging_clear hm j
  | size j => exact gauging_size hm j
  | complain e => exact gauging_record fun _ => ⟨rfl, rfl⟩

theorem gauging_runProgram_of_call (p : Program σ α) :
    (gauging i code.bodies.size).Rel (runProgram code call p) (runProgram (code.gauged i m) call' p) := by
  induction p with
  | done a => exact (gauging i code.bodies.size).rel_pure a
  | ask r next ih => exact (gauging i code.bodies.size).rel_bind (gauging_answer hm hcall hinner hgauge r) ih

/-- No body of the code is the one of the gauge. -/
theorem gauging_runBody (f : Callable) (args : Key) (body : Body σ) (hbody : code.bodies[f.body]? = some body) :
    (gauging i code.bodies.size).Rel (runBody code call f args body)
      (runBody (code.gauged i m) call' f args body) := by
  cases body with
  | program run =>
    obtain ⟨hbound, -⟩ := Array.getElem?_eq_some_iff.mp hbody
    have hother (names : List String) : Entry.Plain i code.bodies.size ⟨.started f.body args, names⟩ :=
      ⟨rfl, if_neg (Nat.ne_of_lt hbound)⟩
    exact (gauging i code.bodies.size).rel_bind (gauging_record hother)
      fun _ => gauging_runProgram_of_call hm hcall hinner hgauge (run args)
  | validated v => exact (gaugingChecks i code.bodies.size).rel_callValidated hcall v args
  | memoized j => exact gauging_callMemoized hm hcall hinner hgauge j args

end Calls

omit hm in
/-- The gauge starts, and calls the old function. -/
theorem call_gauge (depth : Nat) (args : Key) (w : World σ) :
    call (code.gauged i m) (depth + 1) (code.gauge m) args w =
      call (code.gauged i m) depth m.function args (w.record (.started code.bodies.size args)) := by
  have hbody : (code.gauged i m).bodies[code.bodies.size]? =
      some (.program fun args => Program.call m.function args) := Array.getElem?_push_size
  rw [call_program _ args depth (code.gauge m) _ hbody]
  exact congrFun (bind_pure (call (code.gauged i m) depth m.function args)) _

omit hm in
theorem gauging_deeper {depth depth' : Nat} {f : Callable} {args : Key}
    (h : (gauging i code.bodies.size).Rel (call code depth f args) (call (code.gauged i m) depth' f args)) :
    (gauging i code.bodies.size).Rel (call code depth f args) (call (code.gauged i m) (depth' + 1) f args) := by
  intro w outcome w' hrun
  obtain ⟨new, hnew, hstarts, hanswer⟩ := h w outcome w' hrun
  exact ⟨new, hnew, hstarts, fun past => call_mono _ (Nat.le_succ depth') f args _ _ (hanswer past)⟩

/-- Calls through a gauge need twice the depth at most. -/
theorem gauging_call (depth : Nat) (f : Callable) (args : Key) : (gauging i code.bodies.size).Rel
    (call code depth f args) (call (code.gauged i m) (2 * depth) f args) := by
  induction depth generalizing f args with
  | zero => exact fun w outcome w' hrun => nomatch hrun
  | succ depth ih =>
    intro w outcome w' hrun
    obtain ⟨body, hbody, hrun⟩ := exists_body_of_callInto code hrun
    obtain ⟨hbound, -⟩ := Array.getElem?_eq_some_iff.mp hbody
    have hbody' : (code.gauged i m).bodies[f.body]? = some body := by
      rw [Code.gauged, Array.getElem?_push, if_neg (Nat.ne_of_lt hbound), hbody]
    have hgauged (w : World σ) : call (code.gauged i m) (2 * (depth + 1)) f args w =
        runBody (code.gauged i m) (call (code.gauged i m) (2 * depth + 1)) f args body w := by
      change callInto _ _ f args w = _
      rw [callInto, hbody']
      rfl
    obtain ⟨new, hnew, hstarts, hanswer⟩ := gauging_runBody hm (fun f args => gauging_deeper (ih f args))
      (ih m.function) (call_gauge (2 * depth)) f args body hbody w outcome w' hrun
    exact ⟨new, hnew, hstarts, fun past => (hgauged _).trans (hanswer past)⟩

/-- With a gauge a run has the same result, and leaves the same world but for the starts of the gauge. -/
theorem gauging_runProgram (depth : Nat) (p : Program σ α) : (gauging i code.bodies.size).Rel
    (runProgram code (call code depth) p)
    (runProgram (code.gauged i m) (call (code.gauged i m) (2 * depth + 1)) p) :=
  gauging_runProgram_of_call hm (fun f args => gauging_deeper (gauging_call hm depth f args))
    (gauging_call hm depth m.function) (call_gauge (2 * depth)) p

end Memoizers

end Machine

end RuntimeContracts
