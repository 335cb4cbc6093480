import RuntimeContracts.Engine
import RuntimeContracts.Proofs.Machine.Evolution

/-!
Reachable engines: all that definitions and runs, in any order and number, make of a new engine. Runs are
of arbitrary programs over arbitrary bodies, at any depth. The journal of a reachable engine holds for
every memoizer one trace, from the empty cache to the present one.
-/
namespace RuntimeContracts.Engine

variable {σ : Type}

inductive Reachable : Engine σ → Prop
  | start (s : σ) : Reachable (Engine.start s)
  | define {e : Engine σ} (he : Reachable e) (name : String) (params : List String) (body : Body σ) :
      Reachable (Engine.define name params body e).2
  | defineClass {e : Engine σ} (he : Reachable e) (name : String) (parent : Option Class) :
      Reachable (Engine.defineClass name parent e).2
  | defineMemoizer {e : Engine σ} (he : Reachable e) (m : Memoizer) :
      Reachable (Engine.defineMemoizer m e).2
  | run {α : Type} {e : Engine σ} (he : Reachable e) (p : Program σ α) (depth : Nat) (a : α)
      (w : World σ)
      (hrun : Machine.runProgram e.code (Machine.call e.code depth) p e.world = some (a, w)) :
      Reachable { e with world := w }

/-- What `Engine.run?` leaves is reachable, and so is what a run at any other depth leaves. -/
theorem Reachable.run? {α : Type} {e e' : Engine σ} (he : e.Reachable) (p : Program σ α) (a : α)
    (hrun : Engine.run? p e = some (a, e')) : e'.Reachable := by
  obtain ⟨⟨b, w⟩, hw, hr⟩ := Option.map_eq_some_iff.mp hrun
  obtain ⟨rfl, rfl⟩ := Prod.mk.inj hr
  exact he.run p depthLimit b w hw

structure Extends (e e' : Engine σ) : Prop where
  bodies : ∀ (j : Nat) body, e.code.bodies[j]? = some body → e'.code.bodies[j]? = some body
  memoizers : ∀ (j : Nat) m, e.code.memoizers[j]? = some m → e'.code.memoizers[j]? = some m
  size : e.code.bodies.size ≤ e'.code.bodies.size
  world : e'.world = e.world

theorem extends_refl (e : Engine σ) : e.Extends e := ⟨fun _ _ h => h, fun _ _ h => h, Nat.le_refl _, rfl⟩

theorem Extends.trans {e e₁ e₂ : Engine σ} (h : e.Extends e₁) (h' : e₁.Extends e₂) : e.Extends e₂ where
  bodies j body hj := h'.bodies j body (h.bodies j body hj)
  memoizers j m hj := h'.memoizers j m (h.memoizers j m hj)
  size := Nat.le_trans h.size h'.size
  world := h'.world.trans h.world

theorem getElem?_push_of_some {α : Type} (xs : Array α) (x y : α) (j : Nat) (h : xs[j]? = some y) :
    (xs.push x)[j]? = some y := by
  obtain ⟨hj, -⟩ := Array.getElem?_eq_some_iff.mp h
  rw [Array.getElem?_push, if_neg (Nat.ne_of_lt hj), h]

/-- A definition leaves all other functions and memoizers in place. -/
theorem extends_define (e : Engine σ) (name : String) (params : List String) (body : Body σ) :
    e.Extends (define name params body e).2 where
  bodies j b := getElem?_push_of_some e.code.bodies body b j
  memoizers _ _ h := h
  size := by
    change _ ≤ (e.code.bodies.push body).size
    rw [Array.size_push]
    exact Nat.le_succ _
  world := rfl

theorem extends_defineMemoizer (e : Engine σ) (m : Memoizer) : e.Extends (defineMemoizer m e).2 where
  bodies _ _ h := h
  memoizers j m' := getElem?_push_of_some e.code.memoizers m m' j
  size := Nat.le_refl _
  world := rfl

/-- The journal since the start is a trace of every memoizer; there is none of a memoizer yet to come. -/
theorem Reachable.evolves {e : Engine σ} (he : e.Reachable) (i : Nat) :
    ∃ s : σ, (World.start s).Evolves e.code i e.world := by
  induction he with
  | start s => exact ⟨s, World.evolves_of_still rfl rfl List.suffix_rfl⟩
  | define _ _ _ _ ih =>
    obtain ⟨s, h⟩ := ih
    exact ⟨s, h.traced, h.untouched, h.grown⟩
  | defineClass _ _ _ ih =>
    obtain ⟨s, h⟩ := ih
    exact ⟨s, h.traced, h.untouched, h.grown⟩
  | @defineMemoizer e _ m ih =>
    obtain ⟨s, h⟩ := ih
    refine ⟨s, fun m' hm' => ?_, fun hnone => ?_, h.grown⟩
    · by_cases hi : i = e.code.memoizers.size
      · obtain ⟨hsteps, hcache⟩ := h.untouched (by rw [hi]; exact Array.getElem?_size)
        exact (World.evolves_of_still hsteps hcache h.grown).traced m' hm'
      · have hold : e.code.memoizers[i]? = some m' := by
          simpa [Engine.defineMemoizer, Array.getElem?_push, hi] using hm'
        exact h.traced m' hold
    · have hold : e.code.memoizers[i]? = none := by
        simp only [Engine.defineMemoizer, Array.getElem?_eq_none_iff, Array.size_push] at hnone ⊢
        omega
      exact h.untouched hold
  | run _ p depth a w hrun ih =>
    obtain ⟨s, h⟩ := ih
    have hstep := Machine.evolving_runProgram _ i depth p _ a w hrun
    exact ⟨s, h.trans hstep⟩

/-- The journal has one trace of every memoizer, from the empty cache to the one that it has now. -/
theorem Reachable.trace {e : Engine σ} (he : e.Reachable) (i : Nat) (m : Memoizer)
    (hm : e.code.memoizers[i]? = some m) :
    Trace m.policy Cache.empty (e.world.steps i) (e.world.cache i) := by
  obtain ⟨s, h⟩ := he.evolves i
  obtain ⟨steps, hsteps, htrace⟩ := h.traced m hm
  rwa [hsteps]

end RuntimeContracts.Engine
