import RuntimeContracts.Proofs.Cache.Trace

/-!
The accounts of a trace. Calls are hits or misses, every miss is answered, and what was inserted has been
evicted or dropped or is still there. Whatever happens inside of a call, its accounts and those of its
inside add up.
-/
namespace RuntimeContracts

namespace CacheStep

@[simp]
def isCall : CacheStep → Bool
  | called _ => true
  | _ => false

@[simp]
def isHit : CacheStep → Bool
  | hit _ _ => true
  | _ => false

@[simp]
def isMiss : CacheStep → Bool
  | missed _ => true
  | _ => false

@[simp]
def isAnswer : CacheStep → Bool
  | answered _ _ => true
  | _ => false

@[simp]
def isEviction : CacheStep → Bool
  | evicted _ => true
  | _ => false

@[simp]
def isInsertion : CacheStep → Bool
  | stored _ _ isNew => isNew
  | _ => false

@[simp]
def dropped : List CacheStep → Nat
  | [] => 0
  | cleared n :: rest => n + dropped rest
  | _ :: rest => dropped rest

@[simp] theorem dropped_append (steps steps' : List CacheStep) :
    dropped (steps ++ steps') = dropped steps + dropped steps' := by
  induction steps with
  | nil => exact (Nat.zero_add _).symm
  | cons s rest ih => cases s <;> simp [ih, Nat.add_assoc]

@[simp] theorem dropped_map_evicted (keys : List Key) : dropped (keys.map evicted) = 0 := by
  induction keys with
  | nil => rfl
  | cons key rest ih => exact ih

end CacheStep

structure Accounts (policy : CachePolicy) (before : Nat) (steps : List CacheStep) (after : Nat) : Prop where
  called : steps.countP CacheStep.isHit + steps.countP CacheStep.isMiss = steps.countP CacheStep.isCall
  answered : steps.countP CacheStep.isMiss = steps.countP CacheStep.isAnswer
  inserted : steps.countP CacheStep.isEviction + after + CacheStep.dropped steps =
    before + steps.countP CacheStep.isInsertion
  unbounded : policy.capacity? = none → steps.countP CacheStep.isEviction = 0

namespace Accounts

variable {policy : CachePolicy} {before between after : Nat} {steps steps' : List CacheStep}

/-- The books of one time and of the next are the books of both. -/
theorem append (h : Accounts policy before steps between) (h' : Accounts policy between steps' after) :
    Accounts policy before (steps ++ steps') after where
  called := by
    have := h.called
    have := h'.called
    simp only [List.countP_append]
    omega
  answered := by rw [List.countP_append, List.countP_append, h.answered, h'.answered]
  inserted := by
    have := h.inserted
    have := h'.inserted
    simp only [List.countP_append, CacheStep.dropped_append]
    omega
  unbounded hpolicy := by rw [List.countP_append, h.unbounded hpolicy, h'.unbounded hpolicy]

theorem countP_bracket (p : CacheStep → Bool) (steps : List CacheStep) (key : Key) (outcome : Outcome) :
    (.called key :: .missed key :: (steps ++ [.answered key outcome])).countP p =
      (p (.called key)).toNat + (p (.missed key)).toNat + steps.countP p +
        (p (.answered key outcome)).toNat := by
  have hone : ∀ s : CacheStep, [s].countP p = (p s).toNat := fun s => by cases h : p s <;> simp [h]
  rw [← hone, ← hone, ← hone, ← List.countP_append, ← List.countP_append, ← List.countP_append]
  rfl

/-- A call that misses and is answered adds one to each count and nothing to the cache. -/
theorem bracket (h : Accounts policy before steps after) (key : Key) (outcome : Outcome) :
    Accounts policy before (.called key :: .missed key :: (steps ++ [.answered key outcome])) after where
  called := by
    have := h.called
    simp only [countP_bracket, CacheStep.isHit, CacheStep.isMiss, CacheStep.isCall, Bool.toNat_true,
      Bool.toNat_false]
    omega
  answered := by
    have := h.answered
    simp only [countP_bracket, CacheStep.isMiss, CacheStep.isAnswer, Bool.toNat_true, Bool.toNat_false]
    omega
  inserted := by simpa using h.inserted
  unbounded hpolicy := by simpa using h.unbounded hpolicy

end Accounts

namespace Queue

/-- A new pair finds as many places as have been left for it, but one. -/
theorem length_youngest (policy : CachePolicy) (q : Queue) (e : Key × Value)
    (hq : ∀ capacity, policy.capacity? = some capacity → q.length ≤ capacity) :
    (leaving policy q).length + (youngest policy (q ++ [e])).length = q.length + 1 := by
  unfold leaving youngest
  cases hpolicy : policy.capacity? with
  | none => simp
  | some capacity =>
    have hlen := hq capacity hpolicy
    have hpos := policy.capacity_pos capacity hpolicy
    simp only [keys, List.length_take, List.length_map, List.length_drop, List.length_append,
      List.length_singleton]
    omega

/-- An unbounded queue never has to let a key go. -/
theorem leaving_of_unbounded {policy : CachePolicy} (hpolicy : policy.capacity? = none) (q : Queue) :
    leaving policy q = [] := by rw [leaving, hpolicy]

end Queue

namespace Cache

variable {policy : CachePolicy} {c : Cache}

/-- A store under a new key evicts or grows the cache, any other does neither. -/
theorem size_store (hc : c.WellFormed policy) (key : Key) (v : Value) :
    (c.store policy key v).evicted.length + (c.store policy key v).cache.size =
      c.size + (c.store policy key v).isNew.toNat := by
  rw [evicted_store policy c key v hc, isNew_store policy c key v hc, size_eq, size_eq,
    toQueue_store policy c key v hc, Queue.store, ← lookup_eq policy c hc]
  cases c.lookup key with
  | some w =>
    rw [Option.isSome_some, if_pos rfl, if_pos rfl, Queue.length_replace]
    exact Nat.zero_add _
  | none =>
    rw [Option.isSome_none, if_neg Bool.false_ne_true, if_neg Bool.false_ne_true]
    exact Queue.length_youngest policy c.toQueue (key, v) fun capacity hpolicy =>
      c.size_eq ▸ hc.within capacity hpolicy

/-- A store inserts one entry or none, and evicts what its policy makes it evict. -/
theorem accounts_storing (hc : c.WellFormed policy) (key : Key) (v : Value) :
    Accounts policy c.size (c.storing policy key v) (c.store policy key v).cache.size where
  called := by simp [storing, List.countP_map, Function.comp_def]
  answered := by simp [storing, List.countP_map, Function.comp_def]
  inserted := by
    have hsize := size_store hc key v
    cases hnew : (c.store policy key v).isNew <;>
      simpa [storing, List.countP_map, Function.comp_def, hnew] using hsize
  unbounded hpolicy := by
    have hnone : (c.store policy key v).evicted = [] := by
      rw [evicted_store policy c key v hc, Queue.leaving_of_unbounded hpolicy, ite_self]
    simp [storing, hnone]

end Cache

/-- The books of a trace, kept from the size of its first cache to that of its last one. -/
theorem Trace.accounts {policy : CachePolicy} {c c' : Cache} {steps : List CacheStep}
    (h : Trace policy c steps c') (hc : c.WellFormed policy) : Accounts policy c.size steps c'.size := by
  induction h with
  | nil c => exact ⟨rfl, rfl, by simp, fun _ => rfl⟩
  | append hfirst _ ih ih' => exact (ih hc).append (ih' (hfirst.wellFormed hc))
  | looked c key => exact ⟨rfl, rfl, by simp, fun _ => rfl⟩
  | measured c => exact ⟨rfl, rfl, by simp, fun _ => rfl⟩
  | cleared c => exact ⟨rfl, rfl, by simp [Cache.empty, Cache.size], fun _ => rfl⟩
  | stored c key v => exact Cache.accounts_storing hc key v
  | hit c key v _ => exact ⟨rfl, rfl, by simp, fun _ => rfl⟩
  | failed key e _ _ ih => exact (ih hc).bracket key (.error e)
  | @succeeded c c' steps key v _ inside ih =>
    have hstored := Cache.accounts_storing (inside.wellFormed hc) key v
    have hall := ((ih hc).bracket key (.ok v)).append hstored
    simpa using hall

end RuntimeContracts
