import RuntimeContracts.Proofs.Cache.Trace

/-!
How long a result stays in a cache. A store makes its value the one under the key. From there on it stays
through every trace whose steps spare the key: no store overwrites it, no eviction takes it, and nothing
is cleared.
-/
namespace RuntimeContracts

/-- The step leaves what is stored under the key. -/
def CacheStep.spares (key : Key) : CacheStep → Bool
  | .evicted k => !Value.beqItems k key
  | .stored k _ _ => !Value.beqItems k key
  | .cleared _ => false
  | _ => true

namespace Queue

/-- Dropping the front of the queue spares the keys behind it. -/
theorem lookup_drop (q : Queue) (n : Nat) (key : Key)
    (h : ∀ k ∈ (keys q).take n, Value.beqItems k key = false) :
    lookup (q.drop n) key = lookup q key := by
  induction q generalizing n with
  | nil => rw [List.drop_nil]
  | cons e rest ih =>
    cases n with
    | zero => rfl
    | succ n =>
      have hhead : Value.beqItems e.1 key = false := h e.1 (List.mem_cons_self ..)
      have hrest := ih n fun k hk => h k (List.mem_cons_of_mem _ hk)
      have hskip : lookup (e :: rest) key = lookup rest key := by
        simp only [lookup, List.find?_cons, hhead]
      rw [List.drop_succ_cons, hrest, hskip]

/-- Making room for another key leaves what is under this one, if it is not among those that leave. -/
theorem lookup_youngest (policy : CachePolicy) (q : Queue) (k key : Key) (v : Value)
    (hk : Value.beqItems k key = false)
    (hleaving : ∀ l ∈ leaving policy q, Value.beqItems l key = false) :
    lookup (youngest policy (q ++ [(k, v)])) key = lookup q key := by
  have happended : lookup (q ++ [(k, v)]) key = lookup q key := by
    simp [lookup_append, hk]
  rw [← happended]
  cases hpolicy : policy.capacity? with
  | none => simp only [youngest, hpolicy]
  | some capacity =>
    simp only [youngest, leaving, hpolicy] at hleaving ⊢
    refine lookup_drop _ _ key fun l hl => ?_
    rw [keys_append, List.length_append, List.length_singleton] at hl
    rcases Nat.lt_or_ge q.length (q.length + 1 - capacity) with hall | hsome
    · have hpos := policy.capacity_pos capacity hpolicy
      omega
    · rw [List.take_append_of_le_length (by rwa [keys, List.length_map])] at hl
      exact hleaving l hl

end Queue

namespace Cache

theorem lookup_congr (c : Cache) {k key : Key} (hkey : Value.beqItems k key) :
    c.lookup k = c.lookup key := by
  rw [lookup, lookup, lookupIn_eq, lookupIn_eq, Queue.lookup_congr c.entries hkey]

theorem lookupIn_replaceIn (key : Key) (v w : Value) (entries : List (Key × Value))
    (h : lookupIn key entries = some w) : lookupIn key (replaceIn key v entries) = some v := by
  induction entries with
  | nil => cases h
  | cons e rest ih =>
    obtain ⟨k, u⟩ := e
    cases hk : Value.beqItems k key with
    | true => simp only [replaceIn, lookupIn, hk, if_true]
    | false =>
      simp only [lookupIn, hk, Bool.false_eq_true, if_false] at h
      simp only [replaceIn, lookupIn, hk, Bool.false_eq_true, if_false]
      exact ih h

/-- What has been stored is found, whatever had to leave for it. -/
theorem lookup_store_self (c : Cache) (policy : CachePolicy) (key : Key) (v : Value) :
    (c.store policy key v).cache.lookup key = some v := by
  have hfront (entries : List (Key × Value)) : lookupIn key ((key, v) :: entries) = some v := by
    simp [lookupIn, Value.beqItems_refl]
  unfold store
  split
  · rename_i w hfound
    exact lookupIn_replaceIn key v w c.entries hfound
  · split
    · exact hfront _
    · exact hfront _

/-- A store that spares the key, and evicts others only, leaves what is under it. -/
theorem lookup_store_of_spares (c : Cache) (policy : CachePolicy) (hc : c.WellFormed policy)
    (k key : Key) (v : Value) (hspared : ∀ s ∈ c.storing policy k v, s.spares key) :
    (c.store policy k v).cache.lookup key = c.lookup key := by
  have hk : Value.beqItems k key = false := by
    simpa [CacheStep.spares] using hspared (.stored k v _) (List.mem_append_right _
      (List.mem_singleton_self _))
  have hevicted : ∀ l ∈ (c.store policy k v).evicted, Value.beqItems l key = false := by
    intro l hl
    simpa [CacheStep.spares] using hspared (.evicted l) (List.mem_append_left _
      (List.mem_map_of_mem hl))
  rw [lookup_eq policy _ (wellFormed_store policy c k v hc), lookup_eq policy c hc,
    toQueue_store policy c k v hc]
  rw [evicted_store policy c k v hc, lookup_eq policy c hc] at hevicted
  unfold Queue.store
  cases hfound : Queue.lookup c.toQueue k with
  | some w => simp [Queue.lookup_replace, hk]
  | none =>
    rw [hfound] at hevicted
    simpa using Queue.lookup_youngest policy c.toQueue k key v hk (by simpa using hevicted)

end Cache

/-- What is in the cache stays there through a trace that spares its key. -/
theorem Trace.lookup_of_spares {policy : CachePolicy} {c c' : Cache} {steps : List CacheStep}
    (h : Trace policy c steps c') (hc : c.WellFormed policy) (key : Key)
    (hspared : ∀ s ∈ steps, s.spares key) : c'.lookup key = c.lookup key := by
  induction h with
  | nil => rfl
  | append hfirst _ ih ih' =>
    have hbefore := ih hc fun s hs => hspared s (List.mem_append_left _ hs)
    have hafter := ih' (hfirst.wellFormed hc) fun s hs => hspared s (List.mem_append_right _ hs)
    exact hafter.trans hbefore
  | looked => rfl
  | measured => rfl
  | cleared c => exact Bool.noConfusion (hspared _ (List.mem_singleton_self _))
  | stored c k v => exact Cache.lookup_store_of_spares c policy hc k key v hspared
  | hit => rfl
  | @failed c c' steps k e _ _ ih =>
    refine ih hc fun s hs => hspared s ?_
    simp [hs]
  | @succeeded c c' steps k v _ hinside ih =>
    have hbefore := ih hc fun s hs => hspared s (by simp [hs])
    have hafter := Cache.lookup_store_of_spares c' policy (hinside.wellFormed hc) k key v
      fun s hs => hspared s (by simp [hs])
    exact hafter.trans hbefore

end RuntimeContracts
