import RuntimeContracts.Engine

/-!
Names of functions. A body gets its name when it is defined and keeps it: a function of other parameters is
shown under the same name, and functions that validate or memoize have bodies of their own. So there is one
name behind every body.
-/
namespace RuntimeContracts.Engine

variable {σ : Type}

inductive Makes : Engine σ → List Callable → Prop
  | start (s : σ) : Makes (Engine.start s) []
  | define {e : Engine σ} {fs : List Callable} (h : Makes e fs) (name : String) (params : List String)
    (body : Body σ) : Makes (Engine.define name params body e).2 ((Engine.define name params body e).1 :: fs)
  | defineMemoizer {e : Engine σ} {fs : List Callable} (h : Makes e fs) (m : Memoizer) :
    Makes (Engine.defineMemoizer m e).2 fs
  | withParams {e : Engine σ} {fs : List Callable} (h : Makes e fs) {f : Callable} (hf : f ∈ fs)
    (params : List String) : Makes e (f.withParams params :: fs)
  | run {e : Engine σ} {fs : List Callable} (h : Makes e fs) (w : World σ) : Makes { e with world := w } fs

structure Names (e : Engine σ) (fs : List Callable) (names : Nat → String) : Prop where
  body_lt : ∀ f ∈ fs, f.body < e.code.bodies.size
  name_eq : ∀ f ∈ fs, f.name = names f.body

/-- A body has the name of the function that it was made for. -/
theorem exists_names {e : Engine σ} {fs : List Callable} (h : e.Makes fs) :
    ∃ names, e.Names fs names := by
  induction h with
  | start s => exact ⟨fun _ => "", ⟨nofun, nofun⟩⟩
  | @define e fs _ name params body ih =>
    obtain ⟨names, hnames⟩ := ih
    refine ⟨fun i => if i = e.code.bodies.size then name else names i, fun f hf => ?_, fun f hf => ?_⟩
    · simp only [Engine.define, Array.size_push]
      rcases List.mem_cons.mp hf with rfl | hf
      · exact Nat.lt_succ_self _
      · exact Nat.lt_succ_of_lt (hnames.body_lt f hf)
    · rcases List.mem_cons.mp hf with rfl | hf
      · exact (if_pos rfl).symm
      · rw [if_neg (Nat.ne_of_lt (hnames.body_lt f hf))]
        exact hnames.name_eq f hf
  | defineMemoizer _ m ih =>
    obtain ⟨names, hnames⟩ := ih
    exact ⟨names, hnames.body_lt, hnames.name_eq⟩
  | withParams _ hf params ih =>
    obtain ⟨names, hnames⟩ := ih
    have hbody := hnames.body_lt _ hf
    have hname := hnames.name_eq _ hf
    exact ⟨names, List.forall_mem_cons.mpr ⟨hbody, hnames.body_lt⟩,
      List.forall_mem_cons.mpr ⟨hname, hnames.name_eq⟩⟩
  | run _ w ih =>
    obtain ⟨names, hnames⟩ := ih
    exact ⟨names, hnames.body_lt, hnames.name_eq⟩

end RuntimeContracts.Engine
