import Mathlib.Data.List.Forall2
import RuntimeContracts.Proofs.Ascending

/-!
Ascending lists of given entries. A key is found with what its last entry holds, and two ascending lists that
are walked through together have the same keys at the same positions exactly if every key is found in both
or in neither.
-/
namespace RuntimeContracts.Ascending

variable {κ α : Type} [BEq κ]

def last? (k : κ) (entries : List (κ × α)) : Option α := entries.reverse.lookup k

theorem last?_cons (k : κ) (e : κ × α) (entries : List (κ × α)) :
    last? k (e :: entries) = (last? k entries).or ([e].lookup k) := by
  rw [last?, List.reverse_cons, List.lookup_append]
  rfl

variable [LawfulBEq κ]

theorem mem_of_lookup {k : κ} {a : α} {entries : List (κ × α)} (h : entries.lookup k = some a) :
    (k, a) ∈ entries := by
  obtain ⟨before, after, rfl, -⟩ := List.lookup_eq_some_iff.mp h
  exact List.mem_append_right _ (List.mem_cons_self ..)

theorem mem_keys_iff (k : κ) (entries : List (κ × α)) :
    k ∈ entries.map Prod.fst ↔ (entries.lookup k).isSome := by
  rw [List.lookup_isSome_iff, List.mem_map]
  exact exists_congr fun e => and_congr_right fun _ => eq_comm.trans beq_iff_eq.symm

variable [LT κ]

section Entries

variable [DecidableLT κ] (irrefl : ∀ a : κ, ¬ a < a) (trans : ∀ a b c : κ, a < b → b < c → a < c)
  (eq_of_not_lt : ∀ a b : κ, ¬ a < b → ¬ b < a → a = b)

include irrefl eq_of_not_lt

theorem lookup_insert (k : κ) (e : κ × α) (entries : List (κ × α)) :
    (insert e.1 e.2 entries).lookup k = ([e].lookup k).or (entries.lookup k) := by
  by_cases h : k = e.1
  · subst h
    rw [lookup_insert_self irrefl, List.lookup_cons_self]
    rfl
  · rw [insert, lookup_alter_of_ne eq_of_not_lt _ _ _ _ h, lookup_cons_of_ne _ _ _ _ h]
    rfl

/-- When entries are inserted one after another, the last one of a key is left. -/
theorem lookup_foldl_insert (k : κ) (entries acc : List (κ × α)) :
    (entries.foldl (fun acc e => insert e.1 e.2 acc) acc).lookup k =
      (last? k entries).or (acc.lookup k) := by
  induction entries generalizing acc with
  | nil => rfl
  | cons e rest ih =>
    rw [List.foldl_cons, ih, lookup_insert irrefl eq_of_not_lt, last?_cons, Option.or_assoc]

/-- Of several entries of one key the last one counts. -/
theorem lookup_ofEntries (k : κ) (entries : List (κ × α)) :
    (ofEntries entries).lookup k = last? k entries := by
  rw [ofEntries, lookup_foldl_insert irrefl eq_of_not_lt]
  exact Option.or_none

theorem mem_keys_ofEntries_iff (k : κ) (entries : List (κ × α)) :
    k ∈ (ofEntries entries).map Prod.fst ↔ k ∈ entries.map Prod.fst := by
  rw [mem_keys_iff, lookup_ofEntries irrefl eq_of_not_lt, last?, ← mem_keys_iff, List.map_reverse,
    List.mem_reverse]

omit [BEq κ] [LawfulBEq κ] irrefl in
include trans in
/-- Whatever the order of the entries, they come out in ascending order of their keys. -/
theorem ascends_ofEntries (entries : List (κ × α)) : Ascends (ofEntries entries) := by
  have hfold (acc : List (κ × α)) (h : Ascends acc) :
      Ascends (entries.foldl (fun acc e => insert e.1 e.2 acc) acc) := by
    induction entries generalizing acc with
    | nil => exact h
    | cons e rest ih => exact ih _ (ascends_alter trans eq_of_not_lt e.1 _ acc h)
  exact hfold [] List.Pairwise.nil

end Entries

section Positions

variable {β : Type} {r : α → β → Prop} {xs : List (κ × α)} {ys : List (κ × β)}

theorem isSome_eq_of_rel {x : Option α} {y : Option β} (h : Option.Rel r x y) : x.isSome = y.isSome := by
  cases h <;> rfl

omit [LT κ] in
theorem rel_lookup_of_forall₂ (h : List.Forall₂ (fun x y => x.1 = y.1 ∧ r x.2 y.2) xs ys) (k : κ) :
    Option.Rel r (xs.lookup k) (ys.lookup k) := by
  induction h with
  | nil => exact Option.Rel.none
  | @cons x y xs ys hhead _ ih =>
    obtain ⟨l, a⟩ := x
    obtain ⟨l', b⟩ := y
    obtain ⟨rfl, hab⟩ : l = l' ∧ r a b := hhead
    by_cases hk : k = l
    · subst hk
      rw [List.lookup_cons_self, List.lookup_cons_self]
      exact Option.Rel.some hab
    · rw [lookup_cons_of_ne _ _ _ _ hk, lookup_cons_of_ne _ _ _ _ hk]
      exact ih

/-- The first key of an ascending list is the lowest. -/
theorem eq_or_lt_of_isSome_lookup {e : κ × α} (h : Ascends (e :: xs)) {k : κ}
    (hk : ((e :: xs).lookup k).isSome) : k = e.1 ∨ e.1 < k := by
  rw [← mem_keys_iff, List.map_cons, List.mem_cons] at hk
  refine hk.imp_right fun hmem => ?_
  obtain ⟨e', he', rfl⟩ := List.mem_map.mp hmem
  exact (List.pairwise_cons.mp h).1 e' he'

variable (irrefl : ∀ a : κ, ¬ a < a) (trans : ∀ a b c : κ, a < b → b < c → a < c)

include irrefl trans

/-- Each first key is found in the other list, so neither is lower than the other. -/
theorem first_key_eq {x : κ × α} {y : κ × β} (hxs : Ascends (x :: xs)) (hys : Ascends (y :: ys))
    (h : ∀ k, Option.Rel r ((x :: xs).lookup k) ((y :: ys).lookup k)) : x.1 = y.1 := by
  have hx := isSome_eq_of_rel (h x.1)
  have hy := isSome_eq_of_rel (h y.1)
  rw [List.lookup_cons_self, Option.isSome_some] at hx hy
  rcases eq_or_lt_of_isSome_lookup hys hx.symm with heq | hlt
  · exact heq
  · rcases eq_or_lt_of_isSome_lookup hxs hy with heq | hlt'
    · exact heq.symm
    · exact absurd (trans _ _ _ hlt hlt') (irrefl _)

/-- A walk through two ascending lists, position by position, compares what is found at each key. -/
theorem forall₂_iff_rel_lookup (hxs : Ascends xs) (hys : Ascends ys) :
    List.Forall₂ (fun x y => x.1 = y.1 ∧ r x.2 y.2) xs ys ↔
      ∀ k, Option.Rel r (xs.lookup k) (ys.lookup k) := by
  refine ⟨rel_lookup_of_forall₂, fun h => ?_⟩
  induction xs generalizing ys with
  | nil =>
    cases ys with
    | nil => exact List.Forall₂.nil
    | cons y ys =>
      have hy := isSome_eq_of_rel (h y.1)
      rw [List.lookup_cons_self] at hy
      cases hy
  | cons x xs ih =>
    cases ys with
    | nil =>
      have hx := isSome_eq_of_rel (h x.1)
      rw [List.lookup_cons_self] at hx
      cases hx
    | cons y ys =>
      have hkey := first_key_eq irrefl trans hxs hys h
      obtain ⟨k, a⟩ := x
      obtain ⟨l, b⟩ := y
      obtain rfl : k = l := hkey
      obtain ⟨hx, hxs⟩ := List.pairwise_cons.mp hxs
      obtain ⟨hy, hys⟩ := List.pairwise_cons.mp hys
      have hhead := h k
      rw [List.lookup_cons_self, List.lookup_cons_self] at hhead
      refine List.Forall₂.cons ⟨rfl, Option.rel_some_some.mp hhead⟩ (ih hxs hys fun j => ?_)
      by_cases hj : j = k
      · subst hj
        rw [lookup_eq_none_of_lt irrefl xs j hx, lookup_eq_none_of_lt irrefl ys j hy]
        exact Option.Rel.none
      · have hrest := h j
        rwa [lookup_cons_of_ne _ _ _ _ hj, lookup_cons_of_ne _ _ _ _ hj] at hrest

end Positions

end RuntimeContracts.Ascending
