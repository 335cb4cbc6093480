/-!
Association lists whose keys ascend strictly. A key has at most one entry, and two such lists with
the same entries are the same list. Every change goes through `alter`, which replaces the value at one
key or puts it in its place.
-/
namespace RuntimeContracts.Ascending

variable {κ α : Type} [LT κ] [DecidableLT κ]

/-- The list with the value at `k` replaced by `f` of it; `f` gets `none` if `k` has no entry. -/
def alter (k : κ) (f : Option α → α) : List (κ × α) → List (κ × α)
  | [] => [(k, f none)]
  | (l, a) :: rest =>
    if k < l then (k, f none) :: (l, a) :: rest
    else if l < k then (l, a) :: alter k f rest
    else (k, f (some a)) :: rest

def insert (k : κ) (a : α) (entries : List (κ × α)) : List (κ × α) :=
  alter k (fun _ => a) entries

/-- The entries in ascending order of keys; of several entries with one key the last one counts. -/
def ofEntries (entries : List (κ × α)) : List (κ × α) :=
  entries.foldl (fun acc e => insert e.1 e.2 acc) []

def Ascends (entries : List (κ × α)) : Prop := entries.Pairwise (fun a b => a.1 < b.1)

theorem fst_mem_alter (k : κ) (f : Option α → α) (entries : List (κ × α)) (e : κ × α)
    (h : e ∈ alter k f entries) : e.1 = k ∨ ∃ a, (e.1, a) ∈ entries := by
  induction entries with
  | nil =>
    simp only [alter, List.mem_singleton] at h
    exact Or.inl (congrArg Prod.fst h)
  | cons head rest ih =>
    obtain ⟨l, a⟩ := head
    simp only [alter] at h
    split at h
    · rcases List.mem_cons.mp h with rfl | h
      · exact Or.inl rfl
      · exact Or.inr ⟨e.2, h⟩
    · split at h
      · rcases List.mem_cons.mp h with rfl | h
        · exact Or.inr ⟨a, List.mem_cons_self ..⟩
        · rcases ih h with h | ⟨b, h⟩
          · exact Or.inl h
          · exact Or.inr ⟨b, List.mem_cons_of_mem _ h⟩
      · rcases List.mem_cons.mp h with rfl | h
        · exact Or.inl rfl
        · exact Or.inr ⟨e.2, List.mem_cons_of_mem _ h⟩

/-- Altering one key keeps the keys ascending, in every linear order. -/
theorem ascends_alter (trans : ∀ a b c : κ, a < b → b < c → a < c)
    (eq_of_not_lt : ∀ a b : κ, ¬ a < b → ¬ b < a → a = b) (k : κ) (f : Option α → α)
    (entries : List (κ × α)) (h : Ascends entries) : Ascends (alter k f entries) := by
  induction entries with
  | nil => exact List.pairwise_singleton _ _
  | cons head rest ih =>
    obtain ⟨l, a⟩ := head
    obtain ⟨hhead, hrest⟩ := List.pairwise_cons.mp h
    simp only [alter]
    split
    · rename_i hkl
      refine List.pairwise_cons.mpr ⟨fun e he => ?_, h⟩
      rcases List.mem_cons.mp he with rfl | he
      · exact hkl
      · exact trans _ _ _ hkl (hhead e he)
    · rename_i hkl
      split
      · rename_i hlk
        refine List.pairwise_cons.mpr ⟨fun e he => ?_, ih hrest⟩
        rcases fst_mem_alter k f rest e he with hk | ⟨b, hb⟩
        · exact hk ▸ hlk
        · exact hhead (e.1, b) hb
      · rename_i hlk
        obtain rfl := eq_of_not_lt k l hkl hlk
        exact List.pairwise_cons.mpr ⟨fun e he => hhead e he, hrest⟩

end RuntimeContracts.Ascending
