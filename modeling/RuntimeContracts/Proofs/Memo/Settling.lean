import RuntimeContracts.Proofs.Machine.World
import RuntimeContracts.Proofs.Memo.PlainRecursion

/-!
Computations that settle. Given enough depth they have a result, which more depth does not change, as
long as every entry of the cache agrees with the outcome for its key; and they leave such a cache. A
memoized call settles if the call that a miss makes does. Whatever is evicted in between only makes for
more misses.
-/
namespace RuntimeContracts

namespace Cache

theorem mem_replaceIn (key : Key) (v : Value) (entries : List (Key × Value)) (e : Key × Value)
    (h : e ∈ replaceIn key v entries) :
    e ∈ entries ∨ e.2 = v ∧ Value.beqItems e.1 key := by
  induction entries with
  | nil => exact Or.inl h
  | cons entry rest ih =>
    obtain ⟨k, w⟩ := entry
    unfold replaceIn at h
    split at h
    · rename_i hkey
      rcases List.mem_cons.mp h with rfl | hrest
      · exact Or.inr ⟨rfl, hkey⟩
      · exact Or.inl (List.mem_cons_of_mem _ hrest)
    · rcases List.mem_cons.mp h with rfl | hrest
      · exact Or.inl (List.mem_cons_self ..)
      · exact (ih hrest).imp_left (List.mem_cons_of_mem _)

theorem eraseIn_subset (key : Key) (entries : List (Key × Value)) :
    eraseIn key entries ⊆ entries := by
  induction entries with
  | nil => exact List.Subset.refl []
  | cons entry rest ih =>
    obtain ⟨k, w⟩ := entry
    unfold eraseIn
    split
    · exact List.subset_cons_self _ rest
    · exact List.cons_subset_cons _ ih

/-- To make room adds no entry. -/
theorem entries_makeRoom_subset (capacity : Nat) (entries : List (Key × Value)) (queue : List Key) :
    (makeRoom capacity entries queue).cache.entries ⊆ entries := by
  induction queue generalizing entries with
  | nil =>
    unfold makeRoom
    split
    · exact List.Subset.refl entries
    · exact List.nil_subset entries
  | cons oldest queue ih =>
    unfold makeRoom
    split
    · exact List.Subset.refl entries
    · exact List.Subset.trans (ih (eraseIn oldest entries)) (eraseIn_subset oldest entries)

/-- After a store every entry is an old one, or has the new value under an equal key. -/
theorem mem_entries_store (c : Cache) (policy : CachePolicy) (key : Key) (v : Value)
    (e : Key × Value) (h : e ∈ (c.store policy key v).cache.entries) :
    e ∈ c.entries ∨ e.2 = v ∧ Value.beqItems e.1 key := by
  unfold store at h
  split at h
  · exact mem_replaceIn key v c.entries e h
  · have hnew : e.2 = v ∧ Value.beqItems e.1 key ∨ e ∈ c.entries := by
      split at h
      · rcases List.mem_cons.mp h with rfl | hold
        · exact Or.inl ⟨rfl, Value.beqItems_refl key⟩
        · exact Or.inr hold
      · rcases List.mem_cons.mp h with rfl | hold
        · exact Or.inl ⟨rfl, Value.beqItems_refl key⟩
        · exact Or.inr (entries_makeRoom_subset _ c.entries c.queue hold)
    exact hnew.symm

end Cache

section Settling

variable {σ α β : Type}

def World.Agrees (w : World σ) (i : Nat) (r : Key → Outcome) : Prop :=
  ∀ e ∈ (w.cache i).entries, Outcome.Same (.ok e.2) (r e.1)

/-- From a certain depth on, a computation that starts in a world that agrees with the outcomes has a
result, one and the same, which is good, and leaves such a world. -/
def Settles (i : Nat) (r : Key → Outcome) (act : Nat → Machine σ α) (good : α → Prop) : Prop :=
  ∀ w : World σ, w.Agrees i r →
    ∃ a w' enough, (∀ depth, enough ≤ depth → act depth w = some (a, w')) ∧ good a ∧ w'.Agrees i r

variable {i : Nat} {r : Key → Outcome} {act act' : Nat → Machine σ α} {good good' : α → Prop}

theorem settles_pure (a : α) (ha : good a) : Settles i r (fun _ => (pure a : Machine σ α)) good :=
  fun w hw => ⟨a, w, 0, fun _ _ => rfl, ha, hw⟩

theorem settles_bind {k : α → Nat → Machine σ β} {good' : β → Prop} (hact : Settles i r act good)
    (hk : ∀ a, good a → Settles i r (k a) good') :
    Settles i r (fun depth => act depth >>= fun a => k a depth) good' := by
  intro w hw
  obtain ⟨a, w₁, enough, hrun, ha, hw₁⟩ := hact w hw
  obtain ⟨b, w₂, enough', hrun', hb, hw₂⟩ := hk a ha w₁ hw₁
  refine ⟨b, w₂, max enough enough', fun depth hdepth => ?_, hb, hw₂⟩
  have hsecond := hrun' depth (by omega)
  have hbind := Machine.bind_apply (act depth) (fun a => k a depth) w
  rw [hrun depth (by omega)] at hbind
  exact hbind.trans hsecond

theorem Settles.mono (hact : Settles i r act good) (h : ∀ a, good a → good' a) :
    Settles i r act good' := by
  intro w hw
  obtain ⟨a, w', enough, hrun, ha, hw'⟩ := hact w hw
  exact ⟨a, w', enough, hrun, h a ha, hw'⟩

/-- One more level of calls needs one more depth. -/
theorem Settles.deeper (hact : Settles i r act good) (h : ∀ depth, act' (depth + 1) = act depth) :
    Settles i r act' good := by
  intro w hw
  obtain ⟨a, w', enough, hrun, ha, hw'⟩ := hact w hw
  refine ⟨a, w', enough + 1, fun depth hdepth => ?_, ha, hw'⟩
  obtain ⟨d, rfl⟩ : ∃ d, depth = d + 1 := ⟨depth - 1, by omega⟩
  rw [h]
  exact hrun d (by omega)

section Memoized

variable (code : Code σ) (m : Memoizer) (hm : code.memoizers[i]? = some m)

include hm

theorem settles_clear : Settles i r (fun _ => Machine.clear code i) fun _ => True := by
  intro w hw
  refine ⟨_, _, 0, fun _ _ => Machine.clear_apply code i m w hm, trivial, ?_⟩
  intro e he
  rw [World.cache_note, World.cache_setCache] at he
  cases he

variable (hr : ∀ args args', Value.beqItems args args' → Outcome.Same (r args) (r args'))

include hr

omit hm in
/-- What is found is the outcome for the very arguments. -/
theorem same_of_lookup (w : World σ) (hw : w.Agrees i r) (args : Key) (v : Value)
    (h : (w.cache i).lookup args = some v) : Outcome.Same (.ok v) (r args) := by
  rw [Cache.lookup, Cache.lookupIn_eq] at h
  obtain ⟨k, hmem, hkey⟩ := Queue.exists_mem_of_lookup _ args v h
  exact Outcome.same_trans (hw (k, v) hmem) (hr k args hkey)

omit hm in
/-- To store an outcome that is right leaves a cache that agrees. -/
theorem agrees_storeIn (w : World σ) (hw : w.Agrees i r) (args : Key) (v : Value)
    (hv : Outcome.Same (.ok v) (r args)) : (w.storeIn i m args v).Agrees i r := by
  intro e he
  rw [World.cache_storeIn] at he
  rcases Cache.mem_entries_store _ m.policy args v e he with hold | ⟨rfl, hkey⟩
  · exact hw e hold
  · exact Outcome.same_trans hv (Outcome.same_symm (hr e.1 args hkey))

/-- A memoized call settles on the outcome for its arguments if the call that a miss makes does. -/
theorem settles_callMemoized (args : Key)
    (hmiss : Settles i r (fun depth => Machine.call code depth m.function args)
      fun o => Outcome.Same o (r args)) :
    Settles i r (fun depth => Machine.callMemoized code (Machine.call code depth) i args)
      fun o => Outcome.Same o (r args) := by
  intro w hw
  simp only [Machine.callMemoized_eq code _ i m args w hm]
  cases hlookup : (w.cache i).lookup args with
  | some v =>
    have hv := same_of_lookup hr w hw args v hlookup
    exact ⟨.ok v, w.hitting i m args v, 0, fun _ _ => rfl, hv, hw⟩
  | none =>
    obtain ⟨o, w₁, enough, hrun, ho, hw₁⟩ := hmiss (w.missing i m args) hw
    refine ⟨o, (w₁.concluding i m args o).withActive w.active, enough, fun depth hdepth => ?_, ho, ?_⟩
    · simp only [hrun depth hdepth, Option.map_some]
    · cases o with
      | error e => exact hw₁
      | ok v => exact agrees_storeIn m hr (w₁.note i m (.answered args (.ok v))) hw₁ args v ho

theorem settles_lookup (args : Key) :
    Settles i r (fun _ => Machine.lookup code i args)
      fun answer => ∀ v, answer = some v → Outcome.Same (.ok v) (r args) := by
  intro w hw
  refine ⟨_, _, 0, fun _ _ => Machine.lookup_apply code i m args w hm, fun v hv => ?_, hw⟩
  exact same_of_lookup hr w hw args v hv

end Memoized

end Settling

section Running

variable {σ : Type} {i : Nat} {r : Key → Outcome} {good good' : Outcome → Prop}

theorem settles_record (event : Event) :
    Settles i r (fun _ => (Machine.record event : Machine σ Unit)) fun _ => True :=
  fun w hw => ⟨(), w.record event, 0, fun _ _ => rfl, trivial, hw⟩

theorem settles_fresh : Settles i r (fun _ => (Machine.fresh : Machine σ Nat)) fun _ => True :=
  fun w hw =>
    ⟨w.nextIdentity, { w with nextIdentity := w.nextIdentity + 1 }, 0, fun _ _ => rfl, trivial, hw⟩

variable (code : Code σ)

theorem settles_handle (f : Callable) (args : Key) (hf : code.isHandle i f)
    (h : Settles i r (fun depth => Machine.callMemoized code (Machine.call code depth) i args) good) :
    Settles i r (fun depth => Machine.call code depth f args) good := by
  exact h.deeper fun depth =>
    Machine.call_memoized code i args depth f (code.bodies_of_isHandle i f hf)

theorem settles_body (f : Callable) (args : Key) (body : Key → Program σ Outcome)
    (hbody : code.bodies[f.body]? = some (.program body))
    (h : Settles i r (fun depth => Machine.runProgram code (Machine.call code depth) (body args))
      good) : Settles i r (fun depth => Machine.call code depth f args) good := by
  have hstarted := settles_bind (settles_record (σ := σ) (.started f.body args)) fun _ _ => h
  exact hstarted.deeper fun depth => Machine.call_program code args depth f body hbody

/-- A program settles if it does so after the identities that it takes first. -/
theorem settles_comes {target : Program σ Outcome → Prop} {p : Program σ Outcome}
    (hp : Program.Comes target p)
    (h : ∀ q, target q →
      Settles i r (fun depth => Machine.runProgram code (Machine.call code depth) q) good) :
    Settles i r (fun depth => Machine.runProgram code (Machine.call code depth) p) good := by
  induction hp with
  | here hq => exact h _ hq
  | fresh rest ih => exact settles_bind settles_fresh fun n _ => ih n

/-- A program that begins with a call back settles if the call does, and then the rest. -/
theorem settles_callBack (p : Program σ Outcome) (args : Key) (next : Outcome → Program σ Outcome)
    (hcall : p.callBack? code i = some (args, next))
    (hback : Settles i r
      (fun depth => Machine.callMemoized code (Machine.call code depth) i args) good)
    (hnext : ∀ o, good o →
      Settles i r (fun depth => Machine.runProgram code (Machine.call code depth) (next o)) good') :
    Settles i r (fun depth => Machine.runProgram code (Machine.call code depth) p) good' := by
  unfold Program.callBack? at hcall
  split at hcall
  · rename_i j args' next'
    obtain ⟨rfl, heq⟩ := Option.ite_none_right_eq_some.mp hcall
    obtain ⟨rfl, rfl⟩ := Prod.mk.inj (Option.some.inj heq)
    exact settles_bind hback hnext
  · rename_i f args' next'
    obtain ⟨hf, heq⟩ := Option.ite_none_right_eq_some.mp hcall
    obtain ⟨rfl, rfl⟩ := Prod.mk.inj (Option.some.inj heq)
    exact settles_bind (settles_handle code f args' hf hback) hnext
  · cases hcall

end Running

end RuntimeContracts
