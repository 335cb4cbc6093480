import RuntimeContracts.Proofs.Cache.Queue

/-!
Caches refine queues. A cache keeps a table and, when bounded, a separate queue of keys; well formed
caches are those in which the two describe one list of pairs within the policy. On them look-up,
storing and eviction act as on that list, and in particular the queue of keys never runs out while
there is an entry to evict.
-/
namespace RuntimeContracts.Cache

open Queue

def toQueue (c : Cache) : Queue := c.entries.reverse

/-- The table and the queue of keys agree, and the policy is respected. -/
structure WellFormed (policy : CachePolicy) (c : Cache) : Prop where
  distinct : Distinct c.toQueue
  order : c.queue = if policy.capacity?.isSome then keys c.toQueue else []
  within : ∀ capacity, policy.capacity? = some capacity → c.size ≤ capacity

theorem wellFormed_empty (policy : CachePolicy) : WellFormed policy empty where
  distinct := List.Pairwise.nil
  order := by split <;> rfl
  within _ _ := Nat.zero_le _

theorem size_eq (c : Cache) : c.size = c.toQueue.length := by
  simp only [size, toQueue, List.length_reverse]

theorem lookupIn_eq (key : Key) (entries : List (Key × Value)) :
    lookupIn key entries = Queue.lookup entries key := by
  induction entries with
  | nil => rfl
  | cons e rest ih =>
    obtain ⟨k, v⟩ := e
    simp only [lookupIn, Queue.lookup, List.find?_cons]
    cases Value.beqItems k key with
    | true => rfl
    | false => exact ih

/-- A well formed cache finds what its queue of pairs has. -/
theorem lookup_eq (policy : CachePolicy) (c : Cache) (hc : WellFormed policy c) (key : Key) :
    c.lookup key = Queue.lookup c.toQueue key := by
  have hentries : Distinct c.entries := (distinct_reverse c.entries).mp hc.distinct
  rw [lookup, lookupIn_eq, toQueue, lookup_reverse c.entries hentries]

/-- With distinct keys no more than one result is replaced. -/
theorem replaceIn_eq (key : Key) (v : Value) (entries : Queue) (h : Distinct entries) :
    replaceIn key v entries = replace entries key v := by
  induction entries with
  | nil => rfl
  | cons e rest ih =>
    obtain ⟨k, w⟩ := e
    obtain ⟨hhead, hrest⟩ := (distinct_cons (k, w) rest).mp h
    simp only [replaceIn, replace, List.map_cons]
    cases hkey : Value.beqItems k key with
    | false =>
      simp only [Bool.false_eq_true, if_false]
      exact congrArg _ (ih hrest)
    | true =>
      have hsame : rest.map (fun e => if Value.beqItems e.1 key then (e.1, v) else e) = rest := by
        refine List.map_congr_left (fun e he => ?_) |>.trans (List.map_id rest)
        have hne : Value.beqItems e.1 key = false := by
          rw [← Value.beqItems_congr hkey, Value.beqItems_comm]
          exact hhead e.1 (List.mem_map_of_mem he)
        simp [hne]
      simp only [if_true, hsame]

theorem eraseIn_append (key : Key) (entries : Queue) (v : Value)
    (h : ∀ k ∈ keys entries, Value.beqItems key k = false) :
    eraseIn key (entries ++ [(key, v)]) = entries := by
  induction entries with
  | nil => simp [eraseIn, Value.beqItems_refl]
  | cons e rest ih =>
    obtain ⟨k, w⟩ := e
    have hne : Value.beqItems k key = false := by
      rw [Value.beqItems_comm]
      exact h k (List.mem_cons_self ..)
    have hrest := ih fun l hl => h l (List.mem_cons_of_mem _ hl)
    simp [eraseIn, hne, hrest]

/-- To erase the oldest key is to drop the first pair. -/
theorem eraseIn_oldest {k : Key} {v : Value} {rest : Queue} (h : Distinct ((k, v) :: rest)) :
    eraseIn k ((k, v) :: rest).reverse = rest.reverse := by
  obtain ⟨hhead, -⟩ := (distinct_cons (k, v) rest).mp h
  rw [List.reverse_cons]
  refine eraseIn_append k rest.reverse v fun l hl => hhead l ?_
  simpa [keys] using hl

/-- Making room drops pairs from the front until one more fits, and reports their keys. -/
theorem makeRoom_eq (capacity : Nat) (hpos : 0 < capacity) (q : Queue) (hq : Distinct q) :
    makeRoom capacity q.reverse (keys q) =
      ⟨⟨(q.drop (q.length + 1 - capacity)).reverse, keys (q.drop (q.length + 1 - capacity))⟩,
        (keys q).take (q.length + 1 - capacity), true⟩ := by
  induction q with
  | nil =>
    have hdrop : 0 + 1 - capacity = 0 := by omega
    simp [makeRoom, keys, hpos, hdrop]
  | cons e rest ih =>
    obtain ⟨k, v⟩ := e
    obtain ⟨-, hrest⟩ := (distinct_cons (k, v) rest).mp hq
    have herase : eraseIn k ((k, v) :: rest).reverse = rest.reverse := eraseIn_oldest hq
    by_cases hfits : ((k, v) :: rest).length < capacity
    · have hdrop : ((k, v) :: rest).length + 1 - capacity = 0 := by omega
      have hlen : ((k, v) :: rest).reverse.length < capacity := by rwa [List.length_reverse]
      simp only [makeRoom, keys, List.map_cons, hlen, if_true, hdrop, List.drop_zero,
        List.take_zero]
    · have hdrop : ((k, v) :: rest).length + 1 - capacity = rest.length + 1 - capacity + 1 := by
        simp only [List.length_cons] at hfits ⊢
        omega
      have hlen : ¬ ((k, v) :: rest).reverse.length < capacity := by rwa [List.length_reverse]
      have hroom := ih hrest
      simp only [keys] at hroom
      simp only [makeRoom, keys, List.map_cons, hlen, if_false, herase, hroom, hdrop,
        List.drop_succ_cons, List.take_succ_cons]

section Store

variable (policy : CachePolicy) (c : Cache) (key : Key) (v : Value)

theorem store_of_lookup_eq_some (w : Value) (h : c.lookup key = some w) :
    c.store policy key v = ⟨{ c with entries := replaceIn key v c.entries }, [], false⟩ := by
  simp only [store, h]

/-- What storing under a new key does: the youngest pairs stay, the others are evicted. -/
theorem store_of_lookup_eq_none (hc : WellFormed policy c) (h : c.lookup key = none) :
    (c.store policy key v).cache.toQueue = youngest policy (c.toQueue ++ [(key, v)]) ∧
      (c.store policy key v).evicted = leaving policy c.toQueue ∧
      (c.store policy key v).isNew = true ∧
      (c.store policy key v).cache.queue =
        if policy.capacity?.isSome then keys (youngest policy (c.toQueue ++ [(key, v)])) else [] := by
  cases hpolicy : policy.capacity? with
  | none =>
    have horder : c.queue = [] := by simpa [hpolicy] using hc.order
    simp [store, h, hpolicy, youngest, leaving, toQueue, horder]
  | some capacity =>
    have hpos := policy.capacity_pos capacity hpolicy
    have horder : c.queue = keys c.toQueue := by simpa [hpolicy] using hc.order
    have hentries : c.entries = c.toQueue.reverse := by simp [toQueue]
    have hroom := makeRoom_eq capacity hpos c.toQueue hc.distinct
    have hdrop : (c.toQueue ++ [(key, v)]).drop (c.toQueue.length + 1 - capacity) =
        c.toQueue.drop (c.toQueue.length + 1 - capacity) ++ [(key, v)] :=
      List.drop_append_of_le_length (by omega)
    simp only [store, h, hpolicy, horder, youngest, leaving, List.length_append, List.length_singleton,
      hdrop]
    rw [hentries, hroom]
    simp [toQueue, keys]

/-- A store does to the queue of pairs what it does to the table and the queue of keys. -/
theorem toQueue_store (hc : WellFormed policy c) :
    (c.store policy key v).cache.toQueue = Queue.store policy c.toQueue key v := by
  unfold Queue.store
  rw [← lookup_eq policy c hc key]
  cases h : c.lookup key with
  | none => exact (store_of_lookup_eq_none policy c key v hc h).1
  | some w =>
    have hentries : Distinct c.entries := (distinct_reverse c.entries).mp hc.distinct
    rw [store_of_lookup_eq_some policy c key v w h]
    simp only [toQueue, replaceIn_eq key v c.entries hentries, replace, List.map_reverse]
    rfl

theorem isNew_store (hc : WellFormed policy c) :
    (c.store policy key v).isNew = (c.lookup key).isNone := by
  cases h : c.lookup key with
  | none => exact (store_of_lookup_eq_none policy c key v hc h).2.2.1
  | some w => rw [store_of_lookup_eq_some policy c key v w h]; rfl

/-- Only a new key makes others leave, and they are the oldest ones. -/
theorem evicted_store (hc : WellFormed policy c) :
    (c.store policy key v).evicted =
      if (c.lookup key).isSome then [] else leaving policy c.toQueue := by
  cases h : c.lookup key with
  | none => exact (store_of_lookup_eq_none policy c key v hc h).2.1
  | some w => rw [store_of_lookup_eq_some policy c key v w h]; rfl

/-- Table and queue of keys stay in step through every store. -/
theorem wellFormed_store (hc : WellFormed policy c) :
    WellFormed policy (c.store policy key v).cache where
  distinct := by
    rw [toQueue_store policy c key v hc]
    exact distinct_store policy c.toQueue hc.distinct key v
  order := by
    cases h : c.lookup key with
    | none =>
      obtain ⟨hqueue, -, -, horder⟩ := store_of_lookup_eq_none policy c key v hc h
      rw [horder, hqueue]
    | some w =>
      have hfound : Queue.lookup c.toQueue key = some w := by rw [← lookup_eq policy c hc, h]
      rw [toQueue_store policy c key v hc, store_of_lookup_eq_some policy c key v w h]
      simp only [Queue.store, hfound, Option.isSome_some, if_true, keys_replace]
      exact hc.order
  within capacity hpolicy := by
    rw [size_eq, toQueue_store policy c key v hc]
    refine length_store_le policy c.toQueue key v capacity hpolicy ?_
    rw [← size_eq]
    exact hc.within capacity hpolicy

end Store

end RuntimeContracts.Cache
