import RuntimeContracts.Proofs.Cache.Refinement

/-!
How the table and the queue of a cache belong together, said of the two themselves, and what follows for the loop
that makes room: it takes at most one key, every key that it takes has an entry to remove, and it never runs out
of keys while the table is full.
-/
namespace RuntimeContracts.Cache

open Queue

/-- Under a bound the queue holds the keys of the table, each once and no more than the bound; without one it is
not kept. -/
structure Consistent (policy : CachePolicy) (c : Cache) : Prop where
  distinct : c.queue.Pairwise fun a b => Value.beqItems a b = false
  keys : ∀ capacity, policy.capacity? = some capacity → c.queue.Perm (c.entries.map Prod.fst)
  within : ∀ capacity, policy.capacity? = some capacity → c.queue.length ≤ capacity
  unqueued : policy.capacity? = none → c.queue = []

/-- Before an iteration of the loop that makes room in a table with a queue: these keys have been taken, oldest
first, and this table and this queue are left. -/
inductive MakingRoom (capacity : Nat) (entries : List (Key × Value)) (queue : List Key) :
    List Key → List (Key × Value) → List Key → Prop
  | begun : MakingRoom capacity entries queue [] entries queue
  | taken {gone : List Key} {left : List (Key × Value)} {oldest : Key} {rest : List Key}
      (h : MakingRoom capacity entries queue gone left (oldest :: rest)) (hfull : capacity ≤ left.length) :
      MakingRoom capacity entries queue (gone ++ [oldest]) (eraseIn oldest left) rest

structure MakesRoom (capacity : Nat) (c : Cache) : Prop where
  once : ∀ gone left rest, MakingRoom capacity c.entries c.queue gone left rest → gone.length ≤ 1
  /-- A key that is taken takes its entry with it, and no other. -/
  removes : ∀ gone left oldest rest,
    MakingRoom capacity c.entries c.queue gone left (oldest :: rest) →
      ∃ v, left.Perm ((oldest, v) :: eraseIn oldest left)
  /-- Where no key is left there is room, so the table is never emptied for want of a key. -/
  roomy : ∀ gone left, MakingRoom capacity c.entries c.queue gone left [] → left.length < capacity
  /-- It leaves off as soon as there is room, with the table and the queue that it has come to. -/
  ends : ∃ gone left rest, MakingRoom capacity c.entries c.queue gone left rest ∧ left.length < capacity ∧
    makeRoom capacity c.entries c.queue = ⟨⟨left, rest⟩, gone, true⟩

/-- If the keys of a table are in the queue, the oldest one is that of the last entry, which it erases. -/
theorem exists_oldest {left : List (Key × Value)} {oldest : Key} {rest : List Key}
    (hkeys : oldest :: rest = Queue.keys left.reverse) (hleft : Distinct left.reverse) :
    ∃ v, left.reverse = (oldest, v) :: (eraseIn oldest left).reverse := by
  cases hqueue : left.reverse with
  | nil =>
    rw [hqueue] at hkeys
    cases hkeys
  | cons e q =>
    rw [hqueue] at hkeys hleft
    obtain ⟨rfl, -⟩ := List.cons.inj hkeys
    have herase : eraseIn e.1 left = q.reverse := by
      rw [← List.reverse_reverse left, hqueue]
      exact eraseIn_oldest hleft
    exact ⟨e.2, by rw [herase, List.reverse_reverse]⟩

namespace MakingRoom

variable {capacity : Nat} {entries left : List (Key × Value)} {queue gone rest : List Key}

/-- To go on from there is to make room from the beginning. -/
theorem makeRoom_eq (h : MakingRoom capacity entries queue gone left rest) :
    makeRoom capacity entries queue =
      { makeRoom capacity left rest with evicted := gone ++ (makeRoom capacity left rest).evicted } := by
  induction h with
  | begun => rfl
  | @taken gone left oldest rest _ hfull ih =>
    have hfull : ¬ left.length < capacity := Nat.not_lt.mpr hfull
    rw [ih, makeRoom, if_neg hfull, List.append_assoc]
    rfl

/-- Where there is room, the loop takes nothing. -/
theorem makeRoom_of_lt (hroom : left.length < capacity) (rest : List Key) :
    makeRoom capacity left rest = ⟨⟨left, rest⟩, [], true⟩ := by
  cases rest <;> simp only [makeRoom, if_pos hroom]

/-- Where there is no room, the loop begins with the oldest key. -/
theorem cons {oldest : Key} (hfull : capacity ≤ entries.length)
    (h : MakingRoom capacity (eraseIn oldest entries) queue gone left rest) :
    MakingRoom capacity entries (oldest :: queue) (oldest :: gone) left rest := by
  induction h with
  | begun => exact .taken .begun hfull
  | taken _ hfull' ih => exact ih.taken hfull'

/-- The loop goes on until there is room, or no key. -/
theorem exists_last (capacity : Nat) (entries : List (Key × Value)) (queue : List Key) :
    ∃ gone left rest, MakingRoom capacity entries queue gone left rest ∧
      (left.length < capacity ∨ rest = []) := by
  induction queue generalizing entries with
  | nil => exact ⟨[], entries, [], .begun, Or.inr rfl⟩
  | cons oldest queue ih =>
    rcases Nat.lt_or_ge entries.length capacity with hroom | hfull
    · exact ⟨[], entries, oldest :: queue, .begun, Or.inl hroom⟩
    · obtain ⟨gone, left, rest, h, hlast⟩ := ih (eraseIn oldest entries)
      exact ⟨oldest :: gone, left, rest, h.cons hfull, hlast⟩

/-- The table and the queue stay in step, and each key that is taken makes the table smaller by one. -/
theorem keys_eq (h : MakingRoom capacity entries queue gone left rest)
    (hqueue : queue = Queue.keys entries.reverse) (hentries : Distinct entries.reverse) :
    rest = Queue.keys left.reverse ∧ Distinct left.reverse ∧ gone.length + left.length = entries.length := by
  induction h with
  | begun => exact ⟨hqueue, hentries, Nat.zero_add _⟩
  | @taken gone left oldest rest _ _ ih =>
    obtain ⟨hkeys, hleft, hlength⟩ := ih
    obtain ⟨v, hreverse⟩ := exists_oldest hkeys hleft
    rw [hreverse] at hkeys hleft
    have hsize := congrArg List.length hreverse
    rw [List.length_cons, List.length_reverse, List.length_reverse] at hsize
    refine ⟨(List.cons.inj hkeys).2, ((distinct_cons _ _).mp hleft).2, ?_⟩
    rw [List.length_append, List.length_singleton]
    omega

end MakingRoom

section WellFormed

variable {policy : CachePolicy} {c : Cache} (hc : c.WellFormed policy)

include hc

theorem WellFormed.consistent : c.Consistent policy where
  distinct := by
    rw [hc.order]
    split
    · exact hc.distinct
    · exact List.Pairwise.nil
  keys capacity hpolicy := by
    rw [hc.order, hpolicy]
    exact (List.reverse_perm c.entries).map Prod.fst
  within capacity hpolicy := by
    rw [hc.order, hpolicy]
    have hsize := hc.within capacity hpolicy
    rwa [size_eq, ← List.length_map (f := Prod.fst)] at hsize
  unqueued hpolicy := by
    rw [hc.order, hpolicy]
    rfl

/-- In a well formed cache the loop takes at most one key, and finds its entry. -/
theorem WellFormed.makesRoom {capacity : Nat} (hpolicy : policy.capacity? = some capacity) :
    c.MakesRoom capacity := by
  have hqueue : c.queue = Queue.keys c.entries.reverse := by
    rw [hc.order, hpolicy]
    rfl
  have hsize : c.entries.length ≤ capacity := hc.within capacity hpolicy
  have hroomy : ∀ gone left, MakingRoom capacity c.entries c.queue gone left [] → left.length < capacity := by
    intro gone left h
    obtain ⟨hkeys, -, -⟩ := h.keys_eq hqueue hc.distinct
    have hlength := congrArg List.length hkeys
    rw [Queue.keys, List.length_map, List.length_reverse] at hlength
    rw [← hlength]
    exact policy.capacity_pos capacity hpolicy
  refine ⟨fun gone left rest h => ?_, fun gone left oldest rest h => ?_, hroomy, ?_⟩
  · cases h with
    | begun => exact Nat.zero_le 1
    | @taken gone left oldest rest hbefore hfull =>
      obtain ⟨-, -, hlength⟩ := hbefore.keys_eq hqueue hc.distinct
      rw [List.length_append, List.length_singleton]
      omega
  · obtain ⟨hkeys, hleft, -⟩ := h.keys_eq hqueue hc.distinct
    obtain ⟨v, hreverse⟩ := exists_oldest hkeys hleft
    have hperm := (List.reverse_perm left).symm
    rw [hreverse] at hperm
    exact ⟨v, hperm.trans ((List.reverse_perm _).cons _)⟩
  · obtain ⟨gone, left, rest, h, hlast⟩ := MakingRoom.exists_last capacity c.entries c.queue
    have hroom : left.length < capacity := by
      rcases hlast with hroom | rfl
      · exact hroom
      · exact hroomy gone left h
    refine ⟨gone, left, rest, h, hroom, ?_⟩
    rw [h.makeRoom_eq, MakingRoom.makeRoom_of_lt hroom, List.append_nil]

end WellFormed

end RuntimeContracts.Cache
