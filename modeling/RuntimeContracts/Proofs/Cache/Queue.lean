import RuntimeContracts.Cache
import RuntimeContracts.Proofs.Value.Equality

/-!
A cache seen as a queue of pairs, oldest first. Storing replaces a value in place or appends a pair
and then drops pairs from the front down to the capacity. In every well formed cache the table and
the queue of keys together behave as this one list, and every operation keeps the cache well formed.
-/
namespace RuntimeContracts

theorem CachePolicy.capacity_pos (policy : CachePolicy) (capacity : Nat)
    (h : policy.capacity? = some capacity) : 0 < capacity := by
  cases policy with
  | unbounded => simp [CachePolicy.capacity?] at h
  | bounded n positive =>
    obtain rfl : n = capacity := by simpa [CachePolicy.capacity?] using h
    exact positive

abbrev Queue := List (Key × Value)

namespace Queue

def lookup (q : Queue) (key : Key) : Option Value :=
  (q.find? fun e => Value.beqItems e.1 key).map Prod.snd

def keys (q : Queue) : List Key := q.map Prod.fst

def replace (q : Queue) (key : Key) (v : Value) : Queue :=
  q.map fun e => if Value.beqItems e.1 key then (e.1, v) else e

def youngest (policy : CachePolicy) (q : Queue) : Queue :=
  match policy.capacity? with
  | none => q
  | some capacity => q.drop (q.length - capacity)

def leaving (policy : CachePolicy) (q : Queue) : List Key :=
  match policy.capacity? with
  | none => []
  | some capacity => (keys q).take (q.length + 1 - capacity)

def store (policy : CachePolicy) (q : Queue) (key : Key) (v : Value) : Queue :=
  if (lookup q key).isSome then replace q key v else youngest policy (q ++ [(key, v)])

def Distinct (q : Queue) : Prop :=
  (keys q).Pairwise fun a b => Value.beqItems a b = false

theorem keys_append (q r : Queue) : keys (q ++ r) = keys q ++ keys r := List.map_append

/-- A result stored under a key that is there moves no key. -/
theorem keys_replace (q : Queue) (key : Key) (v : Value) : keys (replace q key v) = keys q := by
  simp only [keys, replace, List.map_map]
  apply List.map_congr_left
  intro e _
  simp only [Function.comp_apply]
  split <;> rfl

theorem length_replace (q : Queue) (key : Key) (v : Value) :
    (replace q key v).length = q.length := List.length_map _

theorem lookup_eq_none_iff (q : Queue) (key : Key) :
    lookup q key = none ↔ ∀ k ∈ keys q, Value.beqItems k key = false := by
  simp [lookup, keys]

/-- Equal keys find the same result. -/
theorem lookup_congr (q : Queue) {k key : Key} (hkey : Value.beqItems k key) :
    lookup q k = lookup q key := by
  unfold lookup
  simp only [Value.beqItems_congr hkey]

theorem lookup_replace (q : Queue) (k key : Key) (v : Value) :
    lookup (replace q k v) key =
      if Value.beqItems k key then (lookup q key).map fun _ => v else lookup q key := by
  induction q with
  | nil => simp [replace, lookup]
  | cons e rest ih =>
    simp only [lookup, replace, List.map_cons] at ih ⊢
    by_cases hk : Value.beqItems e.1 k = true
    · have hkey : Value.beqItems e.1 key = Value.beqItems k key := by
        rw [Value.beqItems_comm, Value.beqItems_congr hk key, Value.beqItems_comm]
      by_cases hmatch : Value.beqItems k key = true
      · simp [hk, hkey, hmatch]
      · simpa [hk, hkey, hmatch] using ih
    · by_cases hkey : Value.beqItems e.1 key = true
      · have hmatch : ¬ Value.beqItems k key = true := by
          rwa [Value.beqItems_comm, Value.beqItems_congr hkey k] at hk
        simp [hk, hkey, hmatch]
      · simpa [hk, hkey] using ih

theorem lookup_append (q : Queue) (k key : Key) (v : Value) :
    lookup (q ++ [(k, v)]) key =
      (lookup q key).or (if Value.beqItems k key then some v else none) := by
  unfold lookup
  rw [List.find?_append]
  cases List.find? (fun e => Value.beqItems e.1 key) q with
  | some e => rfl
  | none => by_cases hkey : Value.beqItems k key = true <;> simp [hkey]

theorem exists_mem_of_lookup (q : Queue) (key : Key) (v : Value) (h : lookup q key = some v) :
    ∃ k, (k, v) ∈ q ∧ Value.beqItems k key = true := by
  obtain ⟨e, he, rfl⟩ := Option.map_eq_some_iff.mp h
  have hkey : Value.beqItems e.1 key = true := by simpa using List.find?_some he
  exact ⟨e.1, List.mem_of_find?_eq_some he, hkey⟩

theorem distinct_cons (e : Key × Value) (q : Queue) :
    Distinct (e :: q) ↔ (∀ k ∈ keys q, Value.beqItems e.1 k = false) ∧ Distinct q :=
  List.pairwise_cons

theorem distinct_reverse (q : Queue) : Distinct q.reverse ↔ Distinct q := by
  unfold Distinct keys
  rw [List.map_reverse, List.pairwise_reverse]
  simp only [Value.beqItems_comm]

/-- In a queue with distinct keys every pair is found under its own key. -/
theorem lookup_of_mem (q : Queue) (hq : Distinct q) (k key : Key) (v : Value)
    (hmem : (k, v) ∈ q) (hkey : Value.beqItems k key = true) : lookup q key = some v := by
  induction q with
  | nil => simp at hmem
  | cons e rest ih =>
    obtain ⟨hhead, hrest⟩ := (distinct_cons e rest).mp hq
    rcases List.mem_cons.mp hmem with rfl | hmem
    · simp [lookup, hkey]
    · have hne : Value.beqItems e.1 key = false := by
        rw [← Value.beqItems_congr hkey]
        exact hhead k (List.mem_map_of_mem hmem)
      have hfound : lookup rest key = some v := ih hrest hmem
      simpa only [lookup, List.find?_cons, hne] using hfound

/-- In a queue with distinct keys a look-up finds what stands under an equal key. -/
theorem lookup_eq_some_iff (q : Queue) (hq : Distinct q) (key : Key) (v : Value) :
    lookup q key = some v ↔ ∃ k, (k, v) ∈ q ∧ Value.beqItems k key = true :=
  ⟨exists_mem_of_lookup q key v, fun ⟨k, hmem, hkey⟩ => lookup_of_mem q hq k key v hmem hkey⟩

theorem lookup_reverse (q : Queue) (hq : Distinct q) (key : Key) :
    lookup q.reverse key = lookup q key := by
  apply Option.ext
  intro v
  rw [lookup_eq_some_iff q.reverse ((distinct_reverse q).mpr hq), lookup_eq_some_iff q hq]
  simp only [List.mem_reverse]

theorem distinct_replace (q : Queue) (key : Key) (v : Value) :
    Distinct (replace q key v) ↔ Distinct q := by
  unfold Distinct
  rw [keys_replace]

theorem distinct_append (q : Queue) (hq : Distinct q) (key : Key) (v : Value)
    (hnew : lookup q key = none) : Distinct (q ++ [(key, v)]) := by
  unfold Distinct
  rw [keys_append]
  refine List.pairwise_append.mpr ⟨hq, List.pairwise_singleton _ _, fun a ha b hb => ?_⟩
  have hb : b = key := by simpa [keys] using hb
  exact hb ▸ (lookup_eq_none_iff q key).mp hnew a ha

theorem distinct_drop (q : Queue) (hq : Distinct q) (n : Nat) : Distinct (q.drop n) := by
  unfold Distinct keys
  rw [List.map_drop]
  exact List.Pairwise.drop hq

/-- The pair that came last is always among the youngest. -/
theorem youngest_append (policy : CachePolicy) (q : Queue) (e : Key × Value) :
    ∃ n, youngest policy (q ++ [e]) = q.drop n ++ [e] := by
  unfold youngest
  split
  · exact ⟨0, rfl⟩
  · rename_i capacity hpolicy
    have hpos := policy.capacity_pos capacity hpolicy
    refine ⟨q.length + 1 - capacity, ?_⟩
    rw [List.length_append, List.length_singleton]
    exact List.drop_append_of_le_length (by omega)

theorem distinct_youngest (policy : CachePolicy) (q : Queue) (hq : Distinct q) :
    Distinct (youngest policy q) := by
  unfold youngest
  split
  · exact hq
  · exact distinct_drop q hq _

/-- A store, too, leaves no two keys equal. -/
theorem distinct_store (policy : CachePolicy) (q : Queue) (hq : Distinct q) (key : Key)
    (v : Value) : Distinct (store policy q key v) := by
  unfold store
  split
  · exact (distinct_replace q key v).mpr hq
  · rename_i hnew
    have hnew : lookup q key = none := by simpa using hnew
    exact distinct_youngest policy _ (distinct_append q hq key v hnew)

/-- A queue within its policy stays within it. -/
theorem length_store_le (policy : CachePolicy) (q : Queue) (key : Key) (v : Value)
    (capacity : Nat) (hpolicy : policy.capacity? = some capacity) (hq : q.length ≤ capacity) :
    (store policy q key v).length ≤ capacity := by
  unfold store
  split
  · rwa [length_replace]
  · simp only [youngest, hpolicy, List.length_drop]
    omega

end Queue

end RuntimeContracts
