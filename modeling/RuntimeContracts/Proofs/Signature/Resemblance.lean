import Mathlib.Data.List.Forall2
import RuntimeContracts.Proofs.Signature.Shape
import RuntimeContracts.Proofs.Value.Comparisons

/-!
Values that no spec tells apart. Exactly equal values have one shape, and so have values that agree
numerically. A spec without predicates looks at nothing else, at whatever depth, and a check against a
signature without predicates finds the same mismatch, or none.
-/
namespace RuntimeContracts

namespace Value

def Resembles (a b : Value) : Prop := beqShared a b = true ∨ agrees a b = true

section Memory

variable {memory : Memory}

/-- Values that resemble each other have one shape. -/
theorem shape_eq_of_resembles {a b : Value} (ha : a.LivesIn memory) (hb : b.LivesIn memory)
    (h : a.Resembles b) : a.shape memory.classes = b.shape memory.classes := by
  rcases h with hequal | hagrees
  · exact shape_eq_of_beq _ ((beqShared_eq ha hb).symm.trans hequal)
  · exact shape_eq_of_agrees _ hagrees

theorem map_shape_eq_of_resemble {args args' : List Value} (h : List.Forall₂ Resembles args args')
    (hargs : ∀ v ∈ args, v.LivesIn memory) (hargs' : ∀ v ∈ args', v.LivesIn memory) :
    args.map (shape memory.classes) = args'.map (shape memory.classes) := by
  induction h with
  | nil => rfl
  | cons hhead _ ih =>
    rw [List.forall_mem_cons] at hargs hargs'
    rw [List.map_cons, List.map_cons, shape_eq_of_resembles hargs.1 hargs'.1 hhead, ih hargs.2 hargs'.2]

end Memory

end Value

namespace Signature

variable {m : Type → Type} [Monad m]

/-- No spec and no signature without predicates tells the two values or the two argument lists apart. The
answers are actions, which might ask predicates if there were any. -/
structure TreatsAlike (ask : Callable → Value → m Bool) (a b : Value) (args args' : List Value) : Prop where
  matched : ∀ t : Spec, t.predicates = [] → t.matchesM ask a = t.matchesM ask b
  checkedArgs : ∀ (s : Signature) (f : Callable), (∀ q, ¬ s.Mentions q) →
    s.checkArgs (fun t arg => t.fitsM ask arg) f args = s.checkArgs (fun t arg => t.fitsM ask arg) f args'
  checkedReturn : ∀ (s : Signature) (f : Callable), (∀ q, ¬ s.Mentions q) →
    s.checkReturn (fun t arg => t.fitsM ask arg) f a = s.checkReturn (fun t arg => t.fitsM ask arg) f b

theorem resembling_values_are_treated_alike (ask : Callable → Value → m Bool) (memory : Memory)
    {a b : Value} (ha : a.LivesIn memory) (hb : b.LivesIn memory) (h : a.Resembles b)
    {args args' : List Value} (hargs : ∀ v ∈ args, v.LivesIn memory)
    (hargs' : ∀ v ∈ args', v.LivesIn memory) (hall : List.Forall₂ Value.Resembles args args') :
    TreatsAlike ask a b args args' where
  matched t ht := by
    have hshape (v : Value) (hv : v.LivesIn memory) :
        t.matchesM ask (v.shape memory.classes) = t.matchesM ask v := by
      refine Spec.matchesM_shape memory.classes ask t v (fun q hq => ?_) hv.declared
      rw [ht] at hq
      cases hq
    rw [← hshape a ha, ← hshape b hb, Value.shape_eq_of_resembles ha hb h]
  checkedArgs s f hs := by
    have hshape (args : List Value) (hargs : ∀ v ∈ args, v.LivesIn memory) :
        s.checkArgs (fun t arg => t.fitsM ask arg) f (args.map (Value.shape memory.classes)) =
          s.checkArgs (fun t arg => t.fitsM ask arg) f args :=
      checkArgs_shape s (fun q hq => absurd hq (hs q)) f args fun v hv => (hargs v hv).declared
    rw [← hshape args hargs, ← hshape args' hargs', Value.map_shape_eq_of_resemble hall hargs hargs']
  checkedReturn s f hs := by
    have hshape (v : Value) (hv : v.LivesIn memory) :
        s.checkReturn (fun t arg => t.fitsM ask arg) f (v.shape memory.classes) =
          s.checkReturn (fun t arg => t.fitsM ask arg) f v :=
      checkReturn_shape s (fun q hq => absurd hq (hs q)) f hv.declared
    rw [← hshape a ha, ← hshape b hb, Value.shape_eq_of_resembles ha hb h]

/-- Lists of instances that agree and are not equal, next to a NaN that is equal to itself and does not agree
with itself. The second argument is the one that is reported. -/
theorem resembling_values_are_treated_alike_subclass :
    let point := Class.root 0 "Point"
    let pixel := Class.extending 1 "Pixel" point
    let two := Value.float ⟨0x4000000000000000⟩
    let nan := Value.float ⟨0x7ff8000000000000⟩
    let a := Value.list 4 [.instantiate pixel 2 [("x", .int 2)]]
    let b := Value.list 5 [.instantiate pixel 3 [("x", two)]]
    let ask : Callable → Value → Id Bool := fun _ _ => false
    let s := ofContributions [.param 0 (.listOf (.duck [("x", .native .number)])), .result .any,
      .param 1 (.anyOf [.native .string, .instanceOf point])]
    let f : Callable := ⟨"draw", ["pixels", "ink"], 0⟩
    (∃ memory, a.LivesIn memory ∧ b.LivesIn memory ∧ nan.LivesIn memory) ∧
      TreatsAlike ask a b [a, nan] [b, nan] ∧ Value.beqShared a b = false ∧ Value.agrees nan nan = false ∧
      Id.run (s.checkArgs (fun t arg => t.fitsM ask arg) f [a, nan]) =
        some ⟨"draw", .parameter 1 (some "ink"), "AnyOf(string, Point)", "number"⟩ ∧
      s.checkArgs (fun t arg => t.fitsM ask arg) f [a, nan] =
        s.checkArgs (fun t arg => t.fitsM ask arg) f [b, nan] := by
  intro point pixel two nan a b ask s f
  have hmade : Relation.ReflTransGen Stock.Step .empty ⟨6, [pixel, point], [b, a,
      .instantiate pixel 3 [("x", two)], .instantiate pixel 2 [("x", .int 2)], nan, two, .int 2]⟩ := by
    refine Relation.ReflTransGen.tail (.tail (.tail (.tail (.tail (.tail (.tail (.tail (.single
      (.root "Point")) (.extending "Pixel" point ?_)) (.plain (.int 2) rfl)) (.plain two rfl))
      (.plain nan rfl)) (.inst pixel ?_ [("x", .int 2)] ?_)) (.inst pixel ?_ [("x", two)] ?_))
      (.list [.instantiate pixel 2 [("x", .int 2)]] ?_)) (.list [.instantiate pixel 3 [("x", two)]] ?_)
    all_goals simp [Stock.empty, Stock.define, Stock.keep, Stock.allocate, point, pixel]
  obtain ⟨memory, hlives⟩ := Stock.exists_livesIn hmade
  have ha : a.LivesIn memory := hlives a (by simp)
  have hb : b.LivesIn memory := hlives b (by simp)
  have hnan : nan.LivesIn memory := hlives nan (by simp)
  have hab : a.Resembles b := Or.inr (by decide +kernel)
  have hself : nan.Resembles nan := Or.inl (by decide +kernel)
  have hargs : ∀ v ∈ [a, nan], v.LivesIn memory := by simp [ha, hnan]
  have hargs' : ∀ v ∈ [b, nan], v.LivesIn memory := by simp [hb, hnan]
  have halike := resembling_values_are_treated_alike ask memory ha hb hab hargs hargs'
    (.cons hab (.cons hself .nil))
  have hplain : ∀ q, ¬ s.Mentions q := by
    simp [s, mentions_ofContributions_iff, Contribution.spec, Spec.predicates, Spec.predicatesOf,
      Spec.predicatesOfFields]
  exact ⟨⟨memory, ha, hb, hnan⟩, halike, by decide +kernel, by decide +kernel, by decide +kernel,
    halike.checkedArgs s f hplain⟩

end Signature

end RuntimeContracts
