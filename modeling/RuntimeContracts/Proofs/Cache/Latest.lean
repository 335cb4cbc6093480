import RuntimeContracts.Proofs.Cache.Trace

/-!
What an unbounded cache holds. Nothing is ever evicted from it, so under each key it has the value that
was last stored there since the last clear.
-/
namespace RuntimeContracts

namespace CacheStep

def clears : CacheStep → Bool
  | .cleared _ => true
  | _ => false

def keep (key : Key) (held : Option Value) : CacheStep → Option Value
  | .stored k v _ => if Value.beqItems k key then some v else held
  | .cleared _ => none
  | _ => held

end CacheStep

/-- The value that was last stored under the key since the last clear. -/
def latest (key : Key) (steps : List CacheStep) : Option Value :=
  steps.foldl (CacheStep.keep key) none

/-- An unbounded queue keeps every other key when a result is stored. -/
theorem Queue.lookup_store_unbounded (q : Queue) (k key : Key) (v : Value) :
    lookup (store .unbounded q k v) key = if Value.beqItems k key then some v else lookup q key := by
  have hnew : youngest .unbounded (q ++ [(k, v)]) = q ++ [(k, v)] := rfl
  unfold store
  cases hk : lookup q k with
  | some w =>
    rw [Option.isSome_some, if_pos rfl, lookup_replace]
    split
    · rename_i hkey
      rw [← lookup_congr q hkey, hk, Option.map_some]
    · rfl
  | none =>
    rw [Option.isSome_none, if_neg Bool.false_ne_true, hnew, lookup_append]
    split
    · rename_i hkey
      rw [← lookup_congr q hkey, hk, Option.none_or]
    · rw [Option.or_none]

theorem Queue.lookup_after_unbounded (q : Queue) (key : Key) (s : CacheStep) :
    lookup (after .unbounded q s) key = s.keep key (lookup q key) := by
  cases s with
  | stored k v isNew => exact lookup_store_unbounded q k key v
  | cleared n => rfl
  | _ => rfl

/-- The queue of an unbounded memoizer holds under each key what was stored there last. -/
theorem Queue.lookup_replay_unbounded (key : Key) (steps : List CacheStep) :
    lookup (replay .unbounded [] steps) key = latest key steps := by
  suffices h : ∀ (q : Queue), lookup (replay .unbounded q steps) key =
      steps.foldl (CacheStep.keep key) (lookup q key) from h []
  intro q
  induction steps generalizing q with
  | nil => rfl
  | cons s rest ih =>
    have hstep := lookup_after_unbounded q key s
    have hrest := ih (after .unbounded q s)
    rw [hstep] at hrest
    exact hrest

theorem latest_append (key : Key) (steps steps' : List CacheStep) :
    latest key (steps ++ steps') = steps'.foldl (CacheStep.keep key) (latest key steps) :=
  List.foldl_append

/-- Equal keys have the same value stored last. -/
theorem latest_congr (steps : List CacheStep) {k key : Key} (hkey : Value.beqItems k key) :
    latest k steps = latest key steps := by
  rw [← Queue.lookup_replay_unbounded, ← Queue.lookup_replay_unbounded]
  exact Queue.lookup_congr _ hkey

/-- What is stored stays, if perhaps with another value, as long as nothing is cleared. -/
theorem isSome_foldl_keep (key : Key) (held : Option Value) (steps : List CacheStep)
    (hheld : held.isSome) (hclear : ∀ s ∈ steps, s.clears = false) :
    (steps.foldl (CacheStep.keep key) held).isSome := by
  induction steps generalizing held with
  | nil => exact hheld
  | cons s rest ih =>
    have hs := hclear s (List.mem_cons_self ..)
    have hkept : (s.keep key held).isSome := by
      cases s with
      | stored k v isNew =>
        simp only [CacheStep.keep]
        split
        · rfl
        · exact hheld
      | cleared n => exact absurd hs (by simp [CacheStep.clears])
      | _ => exact hheld
    apply ih (s.keep key held) hkept
    intro t ht
    exact hclear t (List.mem_cons_of_mem _ ht)

/-- What was stored stays until a clear. -/
theorem isSome_latest_of_stored (done mid : List CacheStep) (key args : Key) (v : Value)
    (isNew : Bool) (hkey : Value.beqItems key args) (hclear : ∀ s ∈ mid, s.clears = false) :
    (latest args (done ++ .stored key v isNew :: mid)).isSome := by
  rw [latest_append, List.foldl_cons]
  apply isSome_foldl_keep args _ mid _ hclear
  simp [CacheStep.keep, hkey]

end RuntimeContracts
