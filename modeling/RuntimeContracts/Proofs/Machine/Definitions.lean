import RuntimeContracts.Engine
import RuntimeContracts.Proofs.Machine.Course
import RuntimeContracts.Proofs.Value.Ancestry

/-!
The classes that are defined in an engine, in any order and under any names, with other definitions and with
runs between them. Identities are handed out once, so the classes have a lineage, and being a subclass
is a tree order; specs of classes follow it.
-/
namespace RuntimeContracts

variable {σ : Type}

namespace Engine

/-- The engine has been made from a new one, and these classes have been defined on the way, the last one
first. -/
inductive Defines : Engine σ → List Class → Prop
  | start (s : σ) : Defines (Engine.start s) []
  | root {e : Engine σ} {cs : List Class} (h : Defines e cs) (name : String) :
      Defines (defineClass name none e).2 ((defineClass name none e).1 :: cs)
  | extending {e : Engine σ} {cs : List Class} (h : Defines e cs) (name : String) (parent : Class)
      (hparent : parent ∈ cs) :
      Defines (defineClass name (some parent) e).2 ((defineClass name (some parent) e).1 :: cs)
  | define {e : Engine σ} {cs : List Class} (h : Defines e cs) (name : String) (params : List String)
      (body : Body σ) : Defines (Engine.define name params body e).2 cs
  | defineMemoizer {e : Engine σ} {cs : List Class} (h : Defines e cs) (m : Memoizer) :
      Defines (Engine.defineMemoizer m e).2 cs
  | run {α : Type} {e : Engine σ} {cs : List Class} (h : Defines e cs) (p : Program σ α) (depth : Nat)
      (a : α) (w : World σ)
      (hrun : Machine.runProgram e.code (Machine.call e.code depth) p e.world = some (a, w)) :
      Defines { e with world := w } cs

/-- Every class was new when it was defined, and so no later one can be its parent. -/
theorem Defines.lineage {e : Engine σ} {cs : List Class} (h : e.Defines cs) :
    Class.Lineage e.world.nextIdentity cs := by
  induction h with
  | start s => exact Class.lineage_nil 0
  | root _ name ih => exact ih.cons rfl fun p hp => nomatch hp
  | extending _ name parent hparent ih => exact ih.cons rfl fun p hp => Option.some.inj hp ▸ hparent
  | define _ _ _ _ ih => exact ih
  | defineMemoizer _ _ ih => exact ih
  | run _ p depth a w hrun ih =>
    exact ih.mono (Machine.courses_runProgram _ depth p _ a w hrun).nextIdentity_le

end Engine

def Value.IsOf (cs : List Class) (v : Value) : Prop :=
  ∀ own fields, v.inst? = some (own, fields) → own ∈ cs

/-- What specs of classes say of values, whatever predicates there are and in whatever world. -/
structure Class.Judges (cs : List Class) (call : Machine.Caller σ) : Prop where
  /-- What matches a class matches every class above it. -/
  inherited : ∀ c ∈ cs, ∀ d ∈ cs, c.isSubclassOf d → ∀ v w, v.IsOf cs →
    Machine.fits call (.instanceOf c) (some v) w = some (true, w) →
      Machine.fits call (.instanceOf d) (some v) w = some (true, w)
  instances : ∀ c own id fields w,
    Machine.fits call (.instanceOf c) (some (.inst own id fields)) w = some (own.isSubclassOf c, w)
  others : ∀ c v w, v.kind ≠ .inst → Machine.fits call (.instanceOf c) (some v) w = some (false, w)

/-- Where classes have a tree order, specs of classes follow it. -/
theorem Class.TreeOrder.judges {cs : List Class} (h : TreeOrder cs) (call : Machine.Caller σ) :
    Judges cs call where
  inherited c hc d hd hsub v w hv hmatch := by
    have hfirst : v.isInstanceOf c := congrArg Prod.fst (Option.some.inj hmatch)
    have hsecond : v.isInstanceOf d := by
      cases v with
      | inst own id fields => exact h.trans own (hv own fields rfl) c hc d hd hfirst hsub
      | _ => cases hfirst
    exact congrArg (fun b => some (b, w)) hsecond
  instances c own id fields w := rfl
  others c v w hv := by
    cases v with
    | inst own id fields => exact absurd rfl hv
    | _ => rfl

/-- For every sequence of definitions, being a subclass is a tree order by identity, and the specs of classes
follow it. -/
theorem subclassing_is_tree_order (e : Engine σ) (cs : List Class) (h : e.Defines cs)
    (call : Machine.Caller σ) : Class.TreeOrder cs ∧ Class.Judges cs call :=
  ⟨h.lineage.treeOrder, h.lineage.treeOrder.judges call⟩

/-- Five classes of one name, between which a run draws an identity: a tree of four and another root. -/
theorem subclassing_is_tree_order_one_name :
    let a := Engine.defineClass "Point" none (Engine.start ())
    let b := Engine.defineClass "Point" (some a.1) a.2
    let drawn : Engine Unit := ⟨b.2.code, { b.2.world with nextIdentity := 3 }⟩
    let c := Engine.defineClass "Point" (some a.1) drawn
    let d := Engine.defineClass "Point" (some b.1) c.2
    let f := Engine.defineClass "Point" none d.2
    let cs := [f.1, d.1, c.1, b.1, a.1]
    let call := Machine.call f.2.code 1
    f.2.Defines cs ∧ Class.TreeOrder cs ∧ Class.Judges cs call ∧
      d.1.isSubclassOf a.1 ∧ d.1.isSubclassOf c.1 = false ∧ a.1.isSubclassOf f.1 = false := by
  intro a b drawn c d f cs call
  have hb : b.2.Defines [b.1, a.1] := .extending (.root (.start ()) "Point") "Point" a.1 (.head _)
  have hdrawn : drawn.Defines [b.1, a.1] := .run hb Program.fresh 1 2 _ rfl
  have hd : d.2.Defines [d.1, c.1, b.1, a.1] :=
    .extending (.extending hdrawn "Point" a.1 (.tail _ (.head _))) "Point" b.1 (.tail _ (.head _))
  have hf : f.2.Defines cs := .root hd "Point"
  obtain ⟨htree, hjudges⟩ := subclassing_is_tree_order f.2 cs hf call
  exact ⟨hf, htree, hjudges, by decide, by decide, by decide⟩

end RuntimeContracts
