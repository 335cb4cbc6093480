import RuntimeContracts.Proofs.Signature.Collecting
import RuntimeContracts.Proofs.Signature.Fitting

/-!
Positions with specs and without. A signature that is put together from contributions has slots for the
positions that have specs and for no others. A check of every position there is, from the lowest to the
highest, therefore asks what the check of the slots asks, in the same order, and has the same answer.
-/
namespace RuntimeContracts.Signature

def Filled (s : Signature) : Prop := ∀ e ∈ s.params, e.2 ≠ []

def everyPosition (s : Signature) : List (UInt64 × List Spec) :=
  (List.range UInt64.size).map fun i => (UInt64.ofNat i, s.paramSpecs (UInt64.ofNat i))

variable (s : Signature)

theorem lookup_params_eq_some_iff (position : UInt64) (specs : List Spec) :
    s.params.lookup position = some specs ↔ (position, specs) ∈ s.params :=
  Ascending.lookup_eq_some_iff_mem UInt64.lt_irrefl s.params s.ascends position specs

theorem filled_add (h : s.Filled) (k : Contribution) : (s.add k).Filled := by
  cases k with
  | result spec => exact h
  | param i spec =>
    rintro ⟨position, specs⟩ hmem
    have hlookup := ((s.add (.param i spec)).lookup_params_eq_some_iff position specs).mpr hmem
    by_cases hi : i = position
    · subst hi
      rw [lookup_add_self] at hlookup
      obtain rfl := Option.some.inj hlookup
      exact List.append_ne_nil_of_right_ne_nil _ (List.cons_ne_nil spec [])
    · rw [lookup_add_of_ne s position i spec hi] at hlookup
      exact h _ ((s.lookup_params_eq_some_iff position specs).mp hlookup)

theorem filled_extend (h : s.Filled) (ks : List Contribution) : (s.extend ks).Filled := by
  induction ks generalizing s with
  | nil => exact h
  | cons k rest ih => exact ih (s.add k) (s.filled_add h k)

theorem filled_ofContributions (ks : List Contribution) : (ofContributions ks).Filled :=
  filled_extend empty (fun _ he => absurd he List.not_mem_nil) ks

section Looking

variable {m : Type → Type} [Monad m] (fits : Spec → Option Value → m Bool)

theorem firstRejecting_congr {arg arg' : Option Value} (specs : List Spec)
    (h : ∀ t ∈ specs, fits t arg' = fits t arg) :
    firstRejecting fits arg' specs = firstRejecting fits arg specs := by
  induction specs with
  | nil => rfl
  | cons t rest ih =>
    have hrest := ih fun u hu => h u (List.mem_cons_of_mem _ hu)
    simp only [firstRejecting, h t (List.mem_cons_self ..), hrest]

/-- Arguments make no difference that are described and judged alike at the positions with specs. -/
theorem checkSlots_congr (f : Callable) {args args' : List Value} (slots : List (UInt64 × List Spec))
    (h : ∀ e ∈ slots, describeArg args'[e.1.toNat]? = describeArg args[e.1.toNat]? ∧
      ∀ t ∈ e.2, fits t args'[e.1.toNat]? = fits t args[e.1.toNat]?) :
    checkSlots fits f args' slots = checkSlots fits f args slots := by
  induction slots with
  | nil => rfl
  | cons e rest ih =>
    obtain ⟨i, specs⟩ := e
    obtain ⟨hdescribed, hjudged⟩ := h _ (List.mem_cons_self ..)
    have hhead := firstRejecting_congr fits specs hjudged
    have hrest := ih fun e he => h e (List.mem_cons_of_mem _ he)
    simp only [checkSlots, hhead, hrest, hdescribed]

end Looking

variable {s} (h : s.Filled)

include h

/-- The slots are the positions that have specs. -/
theorem Filled.mem_params_iff (position : UInt64) (specs : List Spec) :
    (position, specs) ∈ s.params ↔ specs ≠ [] ∧ s.paramSpecs position = specs := by
  rw [← lookup_params_eq_some_iff]
  unfold paramSpecs
  constructor
  · intro hlookup
    exact ⟨h _ ((s.lookup_params_eq_some_iff position specs).mp hlookup), by rw [hlookup]; rfl⟩
  · rintro ⟨hne, hspecs⟩
    cases hlookup : s.params.lookup position with
    | none =>
      rw [hlookup] at hspecs
      exact absurd hspecs.symm hne
    | some found =>
      rw [hlookup] at hspecs
      exact congrArg some hspecs

theorem Filled.mem_map_fst_params_iff (position : UInt64) :
    position ∈ s.params.map Prod.fst ↔ s.paramSpecs position ≠ [] := by
  rw [List.mem_map]
  constructor
  · rintro ⟨⟨i, specs⟩, hmem, rfl⟩
    obtain ⟨hne, rfl⟩ := (h.mem_params_iff i specs).mp hmem
    exact hne
  · intro hne
    exact ⟨(position, _), (h.mem_params_iff position _).mpr ⟨hne, rfl⟩, rfl⟩

/-- Of all positions those that have specs are the slots. -/
theorem Filled.filter_everyPosition :
    s.everyPosition.filter (fun e => !e.2.isEmpty) = s.params := by
  have hevery : Ascending.Ascends s.everyPosition := by
    refine List.pairwise_map.mpr (List.pairwise_lt_range.imp_of_mem ?_)
    intro i j hi hj hlt
    exact (UInt64.ofNat_lt_iff_lt (List.mem_range.mp hi) (List.mem_range.mp hj)).mpr hlt
  refine Ascending.eq_of_mem_iff UInt64.lt_irrefl (fun _ _ _ => UInt64.lt_trans)
    (List.Pairwise.filter _ hevery) s.ascends ?_
  rintro ⟨position, specs⟩
  rw [h.mem_params_iff, List.mem_filter, and_comm]
  refine and_congr (by simp) ?_
  unfold everyPosition
  constructor
  · intro hmem
    obtain ⟨i, -, hi⟩ := List.mem_map.mp hmem
    obtain ⟨rfl, rfl⟩ := Prod.mk.inj hi
    rfl
  · rintro rfl
    refine List.mem_map.mpr ⟨position.toNat, List.mem_range.mpr position.toNat_lt_size, ?_⟩
    rw [UInt64.ofNat_toNat]

omit h in
/-- The predicates that a check may ask are those of the contributions. -/
theorem mentions_ofContributions_iff (ks : List Contribution) (q : Callable) :
    (ofContributions ks).Mentions q ↔ ∃ k ∈ ks, q ∈ k.spec.predicates := by
  have hcollects := collects_ofContributions ks
  have hfilled := filled_ofContributions ks
  constructor
  · rintro (⟨⟨position, specs⟩, hslot, t, ht, hq⟩ | ⟨t, ht, hq⟩)
    · obtain ⟨-, rfl⟩ := (hfilled.mem_params_iff position specs).mp hslot
      exact ⟨.param position t, (hcollects.mem_paramSpecs_iff position t).mp ht, hq⟩
    · exact ⟨.result t, (hcollects.mem_returns_iff t).mp ht, hq⟩
  · rintro ⟨k, hk, hq⟩
    cases k with
    | param position t =>
      have ht := (hcollects.mem_paramSpecs_iff position t).mpr hk
      have hslot := (hfilled.mem_params_iff position _).mpr ⟨List.ne_nil_of_mem ht, rfl⟩
      exact Or.inl ⟨_, hslot, t, ht, hq⟩
    | result t => exact Or.inr ⟨t, (hcollects.mem_returns_iff t).mpr hk, hq⟩

section Checking

variable {m : Type → Type} [Monad m] [LawfulMonad m] (fits : Spec → Option Value → m Bool)
  (f : Callable) (args : List Value)

omit h in
/-- Positions without specs are not asked about. -/
theorem checkSlots_filter (slots : List (UInt64 × List Spec)) :
    checkSlots fits f args (slots.filter fun e => !e.2.isEmpty) = checkSlots fits f args slots := by
  induction slots with
  | nil => rfl
  | cons e rest ih =>
    obtain ⟨i, specs⟩ := e
    cases specs with
    | nil =>
      have hskip : checkSlots fits f args ((i, []) :: rest) = checkSlots fits f args rest := by
        simp only [checkSlots, firstRejecting, pure_bind]
      exact ih.trans hskip.symm
    | cons t specs =>
      have hkeep : List.filter (fun e : UInt64 × List Spec => !e.2.isEmpty) ((i, t :: specs) :: rest) =
          (i, t :: specs) :: rest.filter fun e => !e.2.isEmpty := rfl
      rw [hkeep]
      simp only [checkSlots, ih]

/-- The check of every position there is comes to the check of the slots. -/
theorem Filled.checkSlots_everyPosition :
    checkSlots fits f args s.everyPosition = s.checkArgs fits f args := by
  rw [← checkSlots_filter, h.filter_everyPosition]
  rfl

end Checking

end RuntimeContracts.Signature
