import RuntimeContracts.Ascending

/-!
Look-up in ascending association lists. Every entry is found under its key, and the entries determine the
list. Inserting at one key changes what is found there and nothing else.
-/
namespace RuntimeContracts.Ascending

variable {κ α : Type} [BEq κ] [LawfulBEq κ]

theorem lookup_cons_of_ne (j l : κ) (a : α) (rest : List (κ × α)) (h : j ≠ l) :
    ((l, a) :: rest).lookup j = rest.lookup j := by
  simp only [List.lookup_cons, beq_false_of_ne h]

variable [LT κ] [DecidableLT κ]

/-- Altering one key leaves what is found at the others. -/
theorem lookup_alter_of_ne (eq_of_not_lt : ∀ a b : κ, ¬ a < b → ¬ b < a → a = b) (j k : κ)
    (f : Option α → α) (entries : List (κ × α)) (h : j ≠ k) :
    (alter k f entries).lookup j = entries.lookup j := by
  induction entries with
  | nil => exact lookup_cons_of_ne j k _ [] h
  | cons head rest ih =>
    obtain ⟨l, a⟩ := head
    simp only [alter]
    split
    · exact lookup_cons_of_ne j k _ _ h
    · rename_i hkl
      split
      · simp only [List.lookup_cons, ih]
      · rename_i hlk
        obtain rfl := eq_of_not_lt k l hkl hlk
        rw [lookup_cons_of_ne j k _ rest h, lookup_cons_of_ne j k a rest h]

theorem lookup_insert_self (irrefl : ∀ a : κ, ¬ a < a) (k : κ) (a : α) (entries : List (κ × α)) :
    (insert k a entries).lookup k = some a := by
  induction entries with
  | nil => exact List.lookup_cons_self
  | cons head rest ih =>
    obtain ⟨l, b⟩ := head
    simp only [insert, alter]
    split
    · exact List.lookup_cons_self
    · split
      · rename_i hlk
        have hne : k ≠ l := by
          rintro rfl
          exact irrefl k hlk
        rw [lookup_cons_of_ne k l b _ hne]
        exact ih
      · exact List.lookup_cons_self

omit [BEq κ] [LawfulBEq κ] in
theorem mem_of_mem_insert (k : κ) (a : α) (entries : List (κ × α)) {e : κ × α}
    (h : e ∈ insert k a entries) : e = (k, a) ∨ e ∈ entries := by
  induction entries with
  | nil => exact Or.inl (List.mem_singleton.mp h)
  | cons head rest ih =>
    simp only [insert, alter] at h
    split at h
    · rcases List.mem_cons.mp h with rfl | h
      · exact Or.inl rfl
      · exact Or.inr h
    · split at h
      · rcases List.mem_cons.mp h with rfl | h
        · exact Or.inr (List.mem_cons_self ..)
        · exact (ih h).imp_right (List.mem_cons_of_mem _)
      · rcases List.mem_cons.mp h with rfl | h
        · exact Or.inl rfl
        · exact Or.inr (List.mem_cons_of_mem _ h)

omit [BEq κ] [LawfulBEq κ] in
/-- Inserting entries one after another adds no entry but these. -/
theorem mem_of_mem_foldl_insert (entries acc : List (κ × α)) {e : κ × α}
    (h : e ∈ entries.foldl (fun acc e => insert e.1 e.2 acc) acc) : e ∈ acc ∨ e ∈ entries := by
  induction entries generalizing acc with
  | nil => exact Or.inl h
  | cons head rest ih =>
    rcases ih _ h with hinserted | hrest
    · rcases mem_of_mem_insert _ _ _ hinserted with rfl | hacc
      · exact Or.inr (List.mem_cons_self ..)
      · exact Or.inl hacc
    · exact Or.inr (List.mem_cons_of_mem _ hrest)

omit [BEq κ] [LawfulBEq κ] in
/-- What is kept of a list of entries are some of these entries. -/
theorem mem_of_mem_ofEntries (entries : List (κ × α)) {e : κ × α} (h : e ∈ ofEntries entries) :
    e ∈ entries :=
  (mem_of_mem_foldl_insert entries [] h).resolve_left List.not_mem_nil

omit [DecidableLT κ] in
/-- A key below all keys of the entries is not among them. -/
theorem lookup_eq_none_of_lt (irrefl : ∀ a : κ, ¬ a < a) (entries : List (κ × α)) (k : κ)
    (h : ∀ e ∈ entries, k < e.1) : entries.lookup k = none := by
  refine List.lookup_eq_none_iff.mpr fun e he => bne_iff_ne.mpr ?_
  rintro rfl
  exact irrefl _ (h e he)

theorem lookup_alter_self (irrefl : ∀ a : κ, ¬ a < a) (trans : ∀ a b c : κ, a < b → b < c → a < c)
    (eq_of_not_lt : ∀ a b : κ, ¬ a < b → ¬ b < a → a = b) (k : κ) (f : Option α → α)
    (entries : List (κ × α)) (h : Ascends entries) :
    (alter k f entries).lookup k = some (f (entries.lookup k)) := by
  induction entries with
  | nil => exact List.lookup_cons_self
  | cons head rest ih =>
    obtain ⟨l, a⟩ := head
    obtain ⟨hhead, hrest⟩ := List.pairwise_cons.mp h
    simp only [alter]
    split
    · rename_i hkl
      have hnone : ((l, a) :: rest).lookup k = none := by
        refine lookup_eq_none_of_lt irrefl _ k fun e he => ?_
        rcases List.mem_cons.mp he with rfl | he
        · exact hkl
        · exact trans _ _ _ hkl (hhead e he)
      rw [hnone, List.lookup_cons_self]
    · rename_i hkl
      split
      · rename_i hlk
        have hne : k ≠ l := by
          rintro rfl
          exact irrefl k hlk
        rw [lookup_cons_of_ne k l a _ hne, lookup_cons_of_ne k l a rest hne]
        exact ih hrest
      · rename_i hlk
        obtain rfl := eq_of_not_lt k l hkl hlk
        rw [List.lookup_cons_self, List.lookup_cons_self]

omit [DecidableLT κ] in
/-- With ascending keys the entry that a look-up finds is the only one of its key. -/
theorem lookup_eq_some_iff_mem (irrefl : ∀ a : κ, ¬ a < a) (entries : List (κ × α))
    (h : Ascends entries) (k : κ) (a : α) : entries.lookup k = some a ↔ (k, a) ∈ entries := by
  rw [List.lookup_eq_some_iff]
  constructor
  · rintro ⟨before, after, rfl, -⟩
    exact List.mem_append_right before (List.mem_cons_self ..)
  · intro hmem
    obtain ⟨before, after, rfl⟩ := List.append_of_mem hmem
    refine ⟨before, after, rfl, fun e he => ?_⟩
    have hlt : e.1 < k := (List.pairwise_append.mp h).2.2 e he (k, a) (List.mem_cons_self ..)
    apply bne_iff_ne.mpr
    rintro rfl
    exact irrefl _ hlt

omit [BEq κ] [LawfulBEq κ] [DecidableLT κ] in
/-- Ascending lists with the same entries are the same list. -/
theorem eq_of_mem_iff (irrefl : ∀ a : κ, ¬ a < a) (trans : ∀ a b c : κ, a < b → b < c → a < c)
    {xs ys : List (κ × α)} (hxs : Ascends xs) (hys : Ascends ys) (h : ∀ e, e ∈ xs ↔ e ∈ ys) :
    xs = ys := by
  have hnodup {zs : List (κ × α)} (hzs : Ascends zs) : zs.Nodup := by
    refine hzs.imp ?_
    rintro a _ hlt rfl
    exact irrefl _ hlt
  have hperm : xs.Perm ys := (List.perm_ext_iff_of_nodup (hnodup hxs) (hnodup hys)).mpr h
  refine List.Perm.eq_of_pairwise (fun a b _ _ hab hba => ?_) hxs hys hperm
  exact absurd (trans _ _ _ hab hba) (irrefl _)

end RuntimeContracts.Ascending
