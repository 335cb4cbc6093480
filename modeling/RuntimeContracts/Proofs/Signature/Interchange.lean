import RuntimeContracts.Proofs.Signature.Equality

/-!
Equal signatures. They have the same positions, with specs that are equal one by one and can therefore be put
in each other's place. So a check against either asks the same questions and finds the same mismatch, if any.
-/
namespace RuntimeContracts

namespace Signature

structure MadeOf (fs : List Callable) (cs : List Class) (s : Signature) : Prop where
  params : ∀ e ∈ s.params, ∀ t ∈ e.2, t.MadeOf fs cs
  returns : ∀ t ∈ s.returns, t.MadeOf fs cs

theorem madeOf_ofContributions {fs : List Callable} {cs : List Class} {ks : List Contribution}
    (h : ∀ k ∈ ks, k.spec.MadeOf fs cs) : (ofContributions ks).MadeOf fs cs where
  params := (forall_params_iff _ fun _ t => t.MadeOf fs cs).mpr fun position t ht =>
    h (.param position t) (((collects_ofContributions ks).mem_paramSpecs_iff position t).mp ht)
  returns t ht := h (.result t) (((collects_ofContributions ks).mem_returns_iff t).mp ht)

def bare (s : Signature) : Signature where
  params := s.params.map fun e => (e.1, e.2.map Spec.bare)
  returns := s.returns.map Spec.bare
  ascends := by exact List.pairwise_map.mpr s.ascends

theorem bare_eq_of_beq {fs : List Callable} {cs : List Class} (h : Spec.Identified fs cs) {s s' : Signature}
    (hs : s.MadeOf fs cs) (hs' : s'.MadeOf fs cs) (hequal : (s == s') = true) : s.bare = s'.bare := by
  obtain ⟨hparams, hreturns⟩ := Bool.and_eq_true_iff.mp hequal
  have hslots : s.bare.params = s'.bare.params := by
    refine Spec.map_eq_map_of_forall₂ ((beqSlots_iff_forall₂ _ _).mp hparams) fun d hd e he hde => ?_
    refine Prod.ext hde.1 (Spec.map_eq_map_of_forall₂ hde.2 fun t ht u hu htu => ?_)
    exact Spec.bare_eq_of_beq h (hs.params d hd t ht) (hs'.params e he u hu) htu
  have hresults : s.bare.returns = s'.bare.returns := by
    refine Spec.map_eq_map_of_forall₂ ((Spec.beqMembers_iff_forall₂ _ _).mp hreturns) fun t ht u hu htu => ?_
    exact Spec.bare_eq_of_beq h (hs.returns t ht) (hs'.returns u hu) htu
  unfold bare
  congr 1

section Checking

variable {m : Type → Type} [Monad m] [LawfulMonad m] {ask : Callable → Value → m Bool}
  (hask : ∀ f params, ask (f.withParams params) = ask f)

include hask

theorem firstRejecting_bare (arg : Option Value) (specs : List Spec) :
    firstRejecting (fun t arg => t.fitsM ask arg) arg (specs.map Spec.bare) =
      Option.map Spec.bare <$> firstRejecting (fun t arg => t.fitsM ask arg) arg specs := by
  induction specs with
  | nil => simp only [List.map_nil, firstRejecting, map_pure, Option.map_none]
  | cons t rest ih =>
    simp only [List.map_cons, firstRejecting, Spec.fitsM_bare hask, ih, map_bind]
    refine bind_congr fun b => ?_
    cases b <;> simp

/-- The names of parameters in predicates have no part in the check. -/
theorem checkArgs_bare (s : Signature) (f : Callable) (args : List Value) :
    s.bare.checkArgs (fun t arg => t.fitsM ask arg) f args =
      s.checkArgs (fun t arg => t.fitsM ask arg) f args := by
  change checkSlots (fun t arg => t.fitsM ask arg) f args (s.params.map fun e => (e.1, e.2.map Spec.bare)) =
    checkSlots (fun t arg => t.fitsM ask arg) f args s.params
  induction s.params with
  | nil => rfl
  | cons e rest ih =>
    obtain ⟨i, specs⟩ := e
    simp only [List.map_cons, checkSlots, firstRejecting_bare hask, bind_map_left]
    refine bind_congr fun rejecting => ?_
    cases rejecting with
    | none => exact ih
    | some t => simp only [Option.map_some, Spec.render_bare]

theorem checkReturn_bare (s : Signature) (f : Callable) (result : Value) :
    s.bare.checkReturn (fun t arg => t.fitsM ask arg) f result =
      s.checkReturn (fun t arg => t.fitsM ask arg) f result := by
  simp only [checkReturn, bare, firstRejecting_bare hask, bind_map_left]
  refine bind_congr fun rejecting => ?_
  cases rejecting with
  | none => rfl
  | some t => simp only [Option.map_some, Spec.render_bare]

end Checking

/-- The checks against the two signatures put the same questions and find the same mismatch, or none. -/
structure ChecksAlike (s s' : Signature) : Prop where
  args : ∀ {m : Type → Type} [Monad m] [LawfulMonad m] (ask : Nat → String → Value → m Bool)
    (f : Callable) (args : List Value),
    s.checkArgs (fun t arg => t.fitsM (Spec.recording ask) arg) f args =
      s'.checkArgs (fun t arg => t.fitsM (Spec.recording ask) arg) f args
  result : ∀ {m : Type → Type} [Monad m] [LawfulMonad m] (ask : Nat → String → Value → m Bool)
    (f : Callable) (result : Value),
    s.checkReturn (fun t arg => t.fitsM (Spec.recording ask) arg) f result =
      s'.checkReturn (fun t arg => t.fitsM (Spec.recording ask) arg) f result
  /-- In a run they leave the same world and journal as well. -/
  argsRun : ∀ {σ : Type} (code : Code σ) (depth : Nat) (f : Callable) (args : List Value),
    s.checkArgs (Machine.fits (Machine.call code depth)) f args =
      s'.checkArgs (Machine.fits (Machine.call code depth)) f args
  resultRun : ∀ {σ : Type} (code : Code σ) (depth : Nat) (f : Callable) (result : Value),
    s.checkReturn (Machine.fits (Machine.call code depth)) f result =
      s'.checkReturn (Machine.fits (Machine.call code depth)) f result

theorem checksAlike_of_bare_eq {s s' : Signature} (h : s.bare = s'.bare) : s.ChecksAlike s' where
  args ask f args := by
    have hask : ∀ g params, Spec.recording ask (g.withParams params) = Spec.recording ask g := fun _ _ => rfl
    rw [← checkArgs_bare hask s, h, checkArgs_bare hask s']
  result ask f result := by
    have hask : ∀ g params, Spec.recording ask (g.withParams params) = Spec.recording ask g := fun _ _ => rfl
    rw [← checkReturn_bare hask s, h, checkReturn_bare hask s']
  argsRun code depth f args := by
    have hask := Machine.passes_withParams code depth
    change s.checkArgs (fun t arg => t.fitsM _ arg) f args = s'.checkArgs (fun t arg => t.fitsM _ arg) f args
    rw [← checkArgs_bare hask s, h, checkArgs_bare hask s']
  resultRun code depth f result := by
    have hask := Machine.passes_withParams code depth
    change s.checkReturn (fun t arg => t.fitsM _ arg) f result =
      s'.checkReturn (fun t arg => t.fitsM _ arg) f result
    rw [← checkReturn_bare hask s, h, checkReturn_bare hask s']

end Signature

/-- Equal specs, and equal signatures, of functions and classes that have been made one after another. -/
theorem equals_are_interchangeable {σ : Type} {e : Engine σ} {fs : List Callable} (hfs : e.Makes fs)
    {stock : Stock} (hstock : Relation.ReflTransGen Stock.Step .empty stock) :
    (∀ s t : Spec, s.MadeOf fs stock.classes → t.MadeOf fs stock.classes → (s == t) = true →
      s.Interchangeable t) ∧
    ∀ s s' : Signature, s.MadeOf fs stock.classes → s'.MadeOf fs stock.classes → (s == s') = true →
      s.ChecksAlike s' := by
  have h := Spec.identified_of_made hfs hstock
  constructor
  · intro s t hs ht hequal
    exact Spec.interchangeable_of_bare_eq (Spec.bare_eq_of_beq h hs ht hequal)
  · intro s s' hs hs' hequal
    exact Signature.checksAlike_of_bare_eq (Signature.bare_eq_of_beq h hs hs' hequal)

/-- A function and the same function with another parameter, in fields that are wanted along with an instance
of a class. -/
theorem equals_are_interchangeable_renamed :
    let blank : Body Unit := .program fun _ => pure (.ok .undefined)
    let made := Engine.define "blank" ["x"] blank (Engine.start ())
    let f := made.1
    let g := f.withParams ["y"]
    let point := Class.root 0 "Point"
    let s := Spec.duck [("at", .instanceOf point), ("ink", .optional (.predicate f))]
    let t := Spec.duck [("at", .instanceOf point), ("ink", .optional (.predicate g))]
    let asked := Signature.ofContributions [.param 0 s, .result t]
    let asked' := Signature.ofContributions [.param 0 t, .result s]
    let draw : Callable := ⟨"draw", ["shape"], 1⟩
    let shape := Value.ofEntries 2 [("at", .instantiate point 1 []), ("ink", .null)]
    let text := "\x7bat: Point, ink: Optional(<predicate blank>)\x7d"
    s.Interchangeable t ∧ asked.ChecksAlike asked' ∧
      (asked'.checkArgs (Machine.fits (Machine.call made.2.code 1)) draw [shape] (World.start ())).map Prod.fst =
        some (some ⟨"draw", .parameter 0 (some "shape"), text, "object"⟩) := by
  intro blank made f g point s t asked asked' draw shape text
  have hmakes : Engine.Makes made.2 [g, f] :=
    .withParams (.define (.start ()) "blank" ["x"] blank) (List.mem_singleton_self f) ["y"]
  have hstock : Relation.ReflTransGen Stock.Step .empty ⟨1, [point], []⟩ := .single (.root "Point")
  have hmade (q : Callable) (hq : q ∈ [g, f]) :
      (Spec.duck [("at", .instanceOf point), ("ink", .optional (.predicate q))]).MadeOf [g, f] [point] := by
    refine .duck fun e he => ?_
    simp only [List.mem_cons, List.not_mem_nil, or_false] at he
    obtain rfl | rfl := he
    · exact .instanceOf (List.mem_singleton_self point)
    · exact .optional (.predicate hq)
  have hs : s.MadeOf [g, f] [point] := hmade f (by simp)
  have ht : t.MadeOf [g, f] [point] := hmade g (by simp)
  have hasked : asked.MadeOf [g, f] [point] :=
    Signature.madeOf_ofContributions (by simp [Contribution.spec, hs, ht])
  have hasked' : asked'.MadeOf [g, f] [point] :=
    Signature.madeOf_ofContributions (by simp [Contribution.spec, hs, ht])
  have hequals := equals_are_interchangeable hmakes hstock
  exact ⟨hequals.1 s t hs ht (by decide +kernel), hequals.2 asked asked' hasked hasked' (by decide +kernel),
    by decide +kernel⟩

end RuntimeContracts
