import RuntimeContracts.Proofs.Machine.Depth
import RuntimeContracts.Proofs.Signature.Positions

/-!
Which violation is reported. With predicates that decide by their argument alone, the check of arguments
passes exactly if every contributed spec accepts the argument at its position. Otherwise it reports the lowest
position with a spec that rejects its argument, and of the specs that were contributed for this position
the earliest one that does.
-/
namespace RuntimeContracts

namespace Signature

variable (ask : Callable → Value → Bool)

def mismatchAt (f : Callable) (args : Key) (position : UInt64) (t : Spec) : Mismatch :=
  ⟨f.name, .parameter position (f.paramName? position), t.render, describeArg args[position.toNat]?⟩

theorem firstRejecting_eq_find? (arg : Option Value) (specs : List Spec) :
    Id.run (firstRejecting (fun t arg => pure (t.fits ask arg)) arg specs) =
      specs.find? fun t => !t.fits ask arg := by
  induction specs with
  | nil => rfl
  | cons t rest ih => cases hfits : t.fits ask arg <;> simp [firstRejecting, hfits, ih]

theorem checkSlots_eq_findSome? (f : Callable) (args : Key) (slots : List (UInt64 × List Spec)) :
    Id.run (checkSlots (fun t arg => pure (t.fits ask arg)) f args slots) =
      slots.findSome? fun e =>
        (e.2.find? fun t => !t.fits ask args[e.1.toNat]?).map (mismatchAt f args e.1) := by
  induction slots with
  | nil => rfl
  | cons e rest ih =>
    obtain ⟨i, specs⟩ := e
    have hslot := firstRejecting_eq_find? ask args[i.toNat]? specs
    rw [List.findSome?_cons, ← ih, ← hslot]
    simp only [checkSlots, Id.run_bind]
    cases Id.run (firstRejecting (fun t arg => pure (t.fits ask arg)) args[i.toNat]? specs) <;> rfl

/-- Some spec rejects its argument at this position but none at a lower one, and of those contributed for
the position it is `t` that rejects it first. -/
structure FirstRejects (ks : List Contribution) (args : Key) (position : UInt64) (t : Spec) : Prop where
  rejects : t.fits ask args[position.toNat]? = false
  earliest : ∃ earlier later, ks = earlier ++ .param position t :: later ∧
    ∀ u, .param position u ∈ earlier → u.fits ask args[position.toNat]?
  lowest : ∀ p < position, ∀ u, .param p u ∈ ks → u.fits ask args[p.toNat]?

theorem FirstRejects.mem {ask : Callable → Value → Bool} {ks : List Contribution} {args : Key}
    {position : UInt64} {t : Spec} (h : FirstRejects ask ks args position t) :
    .param position t ∈ ks := by
  obtain ⟨earlier, later, rfl, -⟩ := h.earliest
  exact List.mem_append_right earlier (List.mem_cons_self ..)

variable (ks : List Contribution) (f : Callable) (args : Key)

/-- Arguments fit if every contribution accepts what stands at its position, or that nothing does. -/
theorem argsFit_ofContributions_iff : (ofContributions ks).ArgsFit ask args ↔
    ∀ position t, .param position t ∈ ks → t.fits ask args[position.toNat]? := by
  simp only [ArgsFit, (collects_ofContributions ks).mem_paramSpecs_iff]

/-- The contributions for one position, split where its specs are. -/
theorem exists_split_of_paramSpecs {position : UInt64} {before after : List Spec} {t : Spec}
    (h : ks.filterMap (Contribution.paramSpec? position) = before ++ t :: after) :
    ∃ earlier later, ks = earlier ++ .param position t :: later ∧
      earlier.filterMap (Contribution.paramSpec? position) = before := by
  obtain ⟨front, back, rfl, rfl, hback⟩ := List.filterMap_eq_append_iff.mp h
  obtain ⟨others, k, later, rfl, hothers, hk, -⟩ := List.filterMap_eq_cons_iff.mp hback
  obtain rfl := (Contribution.paramSpec?_eq_some_iff position k t).mp hk
  refine ⟨front ++ others, later, (List.append_assoc ..).symm, ?_⟩
  rw [List.filterMap_append, List.filterMap_eq_nil_iff.mpr hothers, List.append_nil]

/-- The violation that is found is the one at the lowest position, of the earliest spec there. -/
theorem exists_firstRejects {e : Mismatch}
    (h : (ofContributions ks).argsViolation ask f args = some e) :
    ∃ position t, FirstRejects ask ks args position t ∧ e = mismatchAt f args position t := by
  have hcollects := collects_ofContributions ks
  have hslots := checkSlots_eq_findSome? ask f args (ofContributions ks).params
  obtain ⟨front, ⟨position, specs⟩, back, hparams, hfound, hfront⟩ :=
    List.findSome?_eq_some_iff.mp (hslots.symm.trans h)
  obtain ⟨t, hfind, rfl⟩ := Option.map_eq_some_iff.mp hfound
  obtain ⟨hrejects, before, after, rfl, hbefore⟩ := List.find?_eq_some_iff_append.mp hfind
  have hslot : (ofContributions ks).paramSpecs position = before ++ t :: after := by
    refine (((filled_ofContributions ks).mem_params_iff position _).mp ?_).2
    rw [hparams]
    exact List.mem_append_right front (List.mem_cons_self ..)
  refine ⟨position, t, ⟨by simpa using hrejects, ?_, ?_⟩, rfl⟩
  · obtain ⟨earlier, later, hks, hearlier⟩ :=
      exists_split_of_paramSpecs ks ((hcollects.params position).symm.trans hslot)
    refine ⟨earlier, later, hks, fun u hu => ?_⟩
    have hmem : u ∈ before := by
      rw [← hearlier]
      exact List.mem_filterMap.mpr ⟨_, hu, (Contribution.paramSpec?_eq_some_iff _ _ _).mpr rfl⟩
    simpa using hbefore u hmem
  · intro p hp u hu
    have hpspecs := (hcollects.mem_paramSpecs_iff p u).mpr hu
    have hmem : (p, (ofContributions ks).paramSpecs p) ∈ front := by
      have hascends := (ofContributions ks).ascends
      have hslots : (p, (ofContributions ks).paramSpecs p) ∈ (ofContributions ks).params :=
        ((filled_ofContributions ks).mem_params_iff p _).mpr ⟨List.ne_nil_of_mem hpspecs, rfl⟩
      rw [hparams] at hascends hslots
      rcases List.mem_append.mp hslots with hfront | hrest
      · exact hfront
      · rcases List.mem_cons.mp hrest with hhead | hback
        · obtain rfl : p = position := congrArg Prod.fst hhead
          exact absurd hp (UInt64.lt_irrefl p)
        · have hhigher := (List.pairwise_cons.mp (List.pairwise_append.mp hascends).2.1).1 _ hback
          exact absurd (UInt64.lt_trans hp hhigher) (UInt64.lt_irrefl p)
    have hnone := hfront _ hmem
    rw [Option.map_eq_none_iff] at hnone
    simpa using List.find?_eq_none.mp hnone u hpspecs

/-- The mismatch that is reported of a result is that with the first spec that rejects it. -/
theorem exists_rejecting_of_resultViolation (s : Signature) {result : Value} {e : Mismatch}
    (h : s.resultViolation ask f result = some e) :
    ∃ t ∈ s.returns, t.fits ask (some result) = false ∧
      e = ⟨f.name, .result, t.render, result.describe⟩ := by
  unfold resultViolation checkReturn at h
  rw [Id.run_bind, firstRejecting_eq_find?] at h
  cases hfind : s.returns.find? fun t => !t.fits ask (some result) with
  | none =>
    rw [hfind] at h
    cases h
  | some t =>
    rw [hfind] at h
    have hrejects := List.find?_some hfind
    exact ⟨t, List.mem_of_find?_eq_some hfind, by simpa using hrejects, (Option.some.inj h).symm⟩

structure ReportsFirst (answer : Option Mismatch) : Prop where
  passes : answer = none ↔ ∀ position t, .param position t ∈ ks → t.fits ask args[position.toNat]?
  reports : ∀ e, answer = some e → ∃ position t, FirstRejects ask ks args position t ∧
    e.function = f.name ∧ e.location = .parameter position (f.paramName? position) ∧
    e.expected = t.render ∧
    (args.length ≤ position.toNat → e.got = "missing") ∧
    ∀ v, args[position.toNat]? = some v → e.got = v.describe

theorem reportsFirst_argsViolation :
    ReportsFirst ask ks f args ((ofContributions ks).argsViolation ask f args) where
  passes := by rw [argsViolation_eq_none_iff, argsFit_ofContributions_iff]
  reports e he := by
    obtain ⟨position, t, hfirst, rfl⟩ := exists_firstRejects ask ks f args he
    refine ⟨position, t, hfirst, rfl, rfl, rfl, fun hmissing => ?_, fun v hv => ?_⟩
    · rw [mismatchAt, List.getElem?_eq_none hmissing]
      rfl
    · rw [mismatchAt, hv]
      rfl

end Signature

section Checking

variable {σ γ : Type} (code : Code σ) (ks : List Contribution) (ask : Callable → Value → Bool)
  (view : World σ → γ) (f : Callable) (args : Key)

def Code.argumentCheck (depth : Nat) (args : Key) : Machine σ (Option Mismatch) :=
  Machine.runProgram code (Machine.call code depth) (Program.checkArgs (.ofContributions ks) f args)

def Code.resultCheck (depth : Nat) (result : Value) : Machine σ (Option Mismatch) :=
  Machine.runProgram code (Machine.call code depth)
    (Program.checkReturn (.ofContributions ks) f result)

section Settling

variable {code ks ask view} (hask : code.Decides (.ofContributions ks) ask view)

include hask

theorem settled_argumentCheck : Machine.Settled view (fun depth => code.argumentCheck ks f depth args)
    ((Signature.ofContributions ks).argsViolation ask f args) := by
  simp only [Code.argumentCheck, Machine.runProgram_checkArgs]
  exact Machine.settled_checkArgs hask f args

theorem settled_resultCheck (result : Value) :
    Machine.Settled view (fun depth => code.resultCheck ks f depth result)
      ((Signature.ofContributions ks).resultViolation ask f result) := by
  simp only [Code.resultCheck, Machine.runProgram_checkReturn]
  exact Machine.settled_checkReturn hask f result

end Settling

/-- What the check of the arguments comes to. -/
structure Code.ChecksContributions : Prop where
  /-- It comes to an end with the first violation, if there is any, in every world. -/
  answers : ∃ answer, Signature.ReportsFirst ask ks f args answer ∧
    Machine.Settled view (fun depth => code.argumentCheck ks f depth args) answer
  /-- It is a check of every position there is. -/
  dense : ∀ depth, code.argumentCheck ks f depth args =
    Signature.checkSlots (Machine.fits (Machine.call code depth)) f args
      (Signature.ofContributions ks).everyPosition
  /-- Arguments at positions for which nothing was contributed make no difference. -/
  sparse : ∀ args' : Key,
    (∀ position t, .param position t ∈ ks → args'[position.toNat]? = args[position.toNat]?) →
      ∀ depth, code.argumentCheck ks f depth args' = code.argumentCheck ks f depth args

/-- With predicates that decide by their argument alone, whatever the contributions and their order. -/
theorem argument_check_reports_first_violation
    (hask : code.Decides (.ofContributions ks) ask view) :
    code.ChecksContributions ks ask view f args := by
  have hfilled := Signature.filled_ofContributions ks
  have hcollects := Signature.collects_ofContributions ks
  constructor
  · exact ⟨_, Signature.reportsFirst_argsViolation ask ks f args, settled_argumentCheck f args hask⟩
  · intro depth
    rw [Code.argumentCheck, Machine.runProgram_checkArgs, hfilled.checkSlots_everyPosition]
  · intro args' hsame depth
    rw [Code.argumentCheck, Code.argumentCheck, Machine.runProgram_checkArgs,
      Machine.runProgram_checkArgs]
    refine Signature.checkSlots_congr _ f _ ?_
    rintro ⟨position, specs⟩ hslot
    obtain ⟨hne, rfl⟩ := (hfilled.mem_params_iff position specs).mp hslot
    obtain ⟨t, ht⟩ := List.exists_mem_of_ne_nil _ hne
    have hposition := hsame position t ((hcollects.mem_paramSpecs_iff position t).mp ht)
    exact ⟨congrArg _ hposition, fun u _ => congrArg _ hposition⟩

end Checking

/-- The highest position is contributed first and left out, and the second spec of the lowest one fails. -/
theorem argument_check_reports_first_violation_far :
    let f : Callable := ⟨"area", ["a", "b"], 0⟩
    let q : Callable := ⟨"echo", ["x"], 1⟩
    let echo : Body Unit := .program fun args => pure (.ok (args.headD .undefined))
    let code : Code Unit := ⟨#[echo, echo], #[]⟩
    let ks : List Contribution := [.param 0xFFFFFFFFFFFFFFFF (.native .number), .param 1 (.predicate q),
      .result .any, .param 1 (.native .string), .param 1 (.native .list)]
    let ask : Callable → Value → Bool := fun _ v => v.same v
    let args : Key := [.null, .bool true]
    code.Decides (.ofContributions ks) ask (fun _ => ()) ∧
      (Signature.ofContributions ks).argsViolation ask f args =
        some ⟨"area", .parameter 1 (some "b"), "string", "boolean"⟩ ∧
      code.ChecksContributions ks ask (fun _ => ()) f args := by
  intro f q echo code ks ask args
  have hask : code.Decides (.ofContributions ks) ask (fun _ => ()) := by
    refine Code.decides_of_done (fun _ v => .ok v) fun p hp => ?_
    obtain rfl : p = q := by
      simpa [Signature.mentions_ofContributions_iff, Contribution.spec, Spec.predicates, ks] using hp
    exact ⟨_, rfl, fun _ => rfl⟩
  exact ⟨hask, by decide +kernel, argument_check_reports_first_violation code ks ask _ f args hask⟩

end RuntimeContracts
