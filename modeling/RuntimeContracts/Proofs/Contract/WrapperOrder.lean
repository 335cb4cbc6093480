import RuntimeContracts.Proofs.Contract.Nesting
import RuntimeContracts.Proofs.Memo.Expectation
import RuntimeContracts.Proofs.Signature.Shape

/-!
The order of a cache and of checks around one function. Outside of the cache the checks see every call, and
the cache keeps results that they refuse; inside of it they see only the misses, and the cache keeps what
they have released. If there are no predicates and the function respects exact equality, then callers
cannot tell the two apart: the checks decide and report the same for equal arguments and equal results.
-/
namespace RuntimeContracts

variable {σ : Type}

namespace Signature

variable (s : Signature) (ask : Callable → Value → Bool) (f : Callable)

def expected (args : Key) (answer : Option Outcome) : Option Outcome :=
  match s.argsViolation ask f args with
  | some e => some (.error (.mismatch e))
  | none => answer.map (s.released ask f .enforce)

section Named

variable {f} {g : Callable} (hname : g.name = f.name) (hparams : g.params = f.params)

include hname

theorem resultViolation_of_named (v : Value) :
    s.resultViolation ask g v = s.resultViolation ask f v := by
  unfold resultViolation checkReturn
  rw [hname]

theorem released_of_named (outcome : Outcome) :
    s.released ask g .enforce outcome = s.released ask f .enforce outcome := by
  have hviolation : s.outcomeViolation ask g outcome = s.outcomeViolation ask f outcome := by
    cases outcome with
    | error e => rfl
    | ok v => exact s.resultViolation_of_named ask hname v
  rw [released, hviolation]
  rfl

include hparams

/-- Two functions of one name and with the same parameters have the same violations. -/
theorem argsViolation_of_named (args : Key) :
    s.argsViolation ask g args = s.argsViolation ask f args := by
  have hmismatch : mismatchAt g args = mismatchAt f args := by
    funext position t
    rw [mismatchAt, mismatchAt, hname, Callable.paramName?, Callable.paramName?, hparams]
  unfold argsViolation checkArgs
  rw [checkSlots_eq_findSome?, checkSlots_eq_findSome?, hmismatch]

/-- Only the name of the function and those of its parameters matter. -/
theorem expected_of_named (args : Key) (answer : Option Outcome) :
    s.expected ask g args answer = s.expected ask f args answer := by
  rw [expected, expected, s.argsViolation_of_named ask hname hparams,
    funext (s.released_of_named ask hname)]

end Named

section Equal

variable {s} {known : Nat → Class} (hs : ∀ q, ¬ s.Mentions q)

include hs

/-- Alike outcomes are released alike. -/
theorem alike_released {o o' : Outcome} (h : Outcome.Alike known o o') :
    Outcome.Alike known (s.released ask f .enforce o) (s.released ask f .enforce o') := by
  obtain ⟨hsame, hdeclared, hdeclared'⟩ := h
  cases o with
  | error e =>
    cases o' with
    | error e' => exact ⟨hsame, trivial, trivial⟩
    | ok v' => exact hsame.elim
  | ok v =>
    cases o' with
    | error e' => exact hsame.elim
    | ok v' =>
      have hviolation : s.resultViolation ask f v = s.resultViolation ask f v' :=
        s.resultViolation_eq_of_beq (fun q hq => absurd hq (hs q)) f hdeclared hdeclared' hsame
      cases hresult : s.resultViolation ask f v' with
      | none =>
        rw [s.released_enforce_of_eq_none ask f hresult,
          s.released_enforce_of_eq_none ask f (hviolation.trans hresult)]
        exact ⟨hsame, hdeclared, hdeclared'⟩
      | some e =>
        rw [s.released_enforce ask f hresult, s.released_enforce ask f (hviolation.trans hresult)]
        exact Outcome.alike_error known _

/-- Checks without predicates keep the respect for exact equality. -/
theorem respectsEquality_expected {answers : Key → Option Outcome}
    (h : RespectsEquality known answers) :
    RespectsEquality known fun args => s.expected ask f args (answers args) := by
  intro args args' hargs hargs' hequal
  have hviolation : s.argsViolation ask f args = s.argsViolation ask f args' :=
    s.argsViolation_eq_of_beqItems (fun q hq => absurd hq (hs q)) f hargs hargs' hequal
  have hanswers := h args args' hargs hargs' hequal
  simp only [expected, hviolation]
  cases s.argsViolation ask f args' with
  | some e => exact Option.Rel.some (Outcome.alike_error known _)
  | none =>
    generalize answers args = answer, answers args' = answer' at hanswers
    cases hanswers with
    | none => exact Option.Rel.none
    | some halike => exact Option.Rel.some (alike_released ask f hs halike)

end Equal

end Signature

/-- A validated function meets what is expected of it by what its function meets. -/
theorem meets_validated {code : Code σ} {f g : Callable} {s : Signature} {known : Nat → Class} {i : Nat}
    {good : Cache → Prop} {args : Key} {answer : Option Outcome} (hs : ∀ q, ¬ s.Mentions q)
    (ask : Callable → Value → Bool) (hg : code.bodies[g.body]? = some (.validated ⟨f, s, .enforce⟩))
    (hf : Meets i good (Outcome.Alike known) (fun depth => Machine.call code depth f args) answer) :
    Meets i good (Outcome.Alike known) (fun depth => Machine.call code depth g args)
      (s.expected ask f args answer) := by
  have hview : World.Overlooks fun w : World σ => w.cache i := ⟨fun _ _ => rfl, fun _ _ => rfl⟩
  have hask : code.Decides s ask fun w : World σ => w.cache i := fun q hq => absurd hq (hs q)
  have hdeeper (depth : Nat) : Machine.call code (depth + 1) g args =
      Machine.callValidated (Machine.call code depth) ⟨f, s, .enforce⟩ args :=
    Machine.call_validated code args depth g _ hg
  unfold Signature.expected
  cases hviolation : s.argsViolation ask f args with
  | some e =>
    refine ⟨fun o ho w hw => ?_, fun hnone => absurd hnone (Option.some_ne_none _)⟩
    obtain rfl : .error (.mismatch e) = o := Option.some.inj ho
    obtain ⟨w', hends, hsame, -⟩ := Machine.ends_stopped hview hask f .enforce args w e hviolation
    exact ⟨_, w', hends.deeper hdeeper, Outcome.alike_error known _, hsame ▸ hw⟩
  | none =>
    constructor
    · intro o ho w hw
      obtain ⟨outcome, houtcome, rfl⟩ := Option.map_eq_some_iff.mp ho
      obtain ⟨w₁, hbefore, hanswered, -⟩ :=
        Machine.exists_asked hview hask f .enforce args w hviolation
      obtain ⟨outcome', w₂, hends, halike, hw₂⟩ := hf.ends outcome houtcome w₁ (hbefore ▸ hw)
      obtain ⟨w', hreleased, hafter, -⟩ := hanswered outcome' w₂ hends
      exact ⟨_, w', hreleased.deeper hdeeper, s.alike_released ask f hs halike, hafter ▸ hw₂⟩
    · intro hnone w hw
      obtain ⟨w₁, hbefore, -, hunanswered⟩ :=
        Machine.exists_asked hview hask f .enforce args w hviolation
      have hstalls := hf.stalls (Option.map_eq_none_iff.mp hnone) w₁ (hbefore ▸ hw)
      have hvalidated : Machine.Stalls (fun depth =>
          Machine.callValidated (Machine.call code depth) ⟨f, s, .enforce⟩ args) w :=
        hunanswered hstalls.call_eq_none
      exact hvalidated.deeper hdeeper

/-- Function `h` was made of `f` by memoizing it, with memoizer `i`, in an engine whose code is still
there. -/
def Code.Memoizes (code : Code σ) (f : Callable) (policy : CachePolicy) (h : Callable) (i : Nat) : Prop :=
  ∃ e e' : Engine σ, Engine.memoize f policy e = (h, e') ∧ e.code.memoizers.size = i ∧
    (∀ (j : Nat) body, e'.code.bodies[j]? = some body → code.bodies[j]? = some body) ∧
    ∀ (j : Nat) m, e'.code.memoizers[j]? = some m → code.memoizers[j]? = some m

theorem Code.memoizes_memoize (e later : Engine σ) (f : Callable) (policy : CachePolicy)
    (hlater : (Engine.memoize f policy e).2.Extends later) :
    later.code.Memoizes f policy (Engine.memoize f policy e).1 e.code.memoizers.size :=
  ⟨e, _, rfl, rfl, hlater.bodies, hlater.memoizers⟩

theorem Code.Memoizes.body {code : Code σ} {f h : Callable} {policy : CachePolicy} {i : Nat}
    (hh : code.Memoizes f policy h i) : code.bodies[h.body]? = some (.memoized i) ∧
      code.memoizers[i]? = some ⟨f, policy⟩ ∧ h.name = f.name ∧ h.params = f.params := by
  obtain ⟨e, e', hmade, rfl, hbodies, hmemoizers⟩ := hh
  obtain ⟨rfl, rfl⟩ := Prod.mk.inj hmade.symm
  exact ⟨hbodies _ _ Array.getElem?_push_size, hmemoizers _ _ Array.getElem?_push_size, rfl, rfl⟩

/-- In every world the function comes to these answers, up to exact equality, and leaves memoizer `i` as it
is; where there is no answer it never comes to an end. It respects exact equality. -/
structure Code.ActsAs (code : Code σ) (f : Callable) (known : Nat → Class)
    (answers : Key → Option Outcome) (i : Nat) : Prop where
  ends : ∀ args o, (∀ v ∈ args, v.Declared known) → answers args = some o → ∀ w, ∃ o' w',
    Machine.Ends (fun depth => Machine.call code depth f args) w o' w' ∧ Outcome.Alike known o' o ∧
      w'.cache i = w.cache i
  stalls : ∀ args, (∀ v ∈ args, v.Declared known) → answers args = none → ∀ w,
    Machine.Stalls (fun depth => Machine.call code depth f args) w
  respects : RespectsEquality known answers

/-- A function that acts like this meets what is expected of it. -/
theorem Code.ActsAs.meets {code : Code σ} {f : Callable} {known : Nat → Class}
    {answers : Key → Option Outcome} {i : Nat} (hf : code.ActsAs f known answers i) {args : Key}
    (hargs : ∀ v ∈ args, v.Declared known) (good : Cache → Prop) :
    Meets i good (Outcome.Alike known) (fun depth => Machine.call code depth f args) (answers args) where
  ends o ho w hw := by
    obtain ⟨o', w', hends, halike, hkept⟩ := hf.ends args o hargs ho w
    exact ⟨o', w', hends, halike, hkept.symm ▸ hw⟩
  stalls hnone w _ := hf.stalls args hargs hnone w

/-- The same answers one by one, or none on both sides. -/
def SameAnswers (x y : Option (List Outcome)) : Prop := Option.Rel (List.Forall₂ Outcome.Same) x y

theorem forall₂_same_of_alike {known : Nat → Class} {xs ys zs : List Outcome}
    (h : List.Forall₂ (Outcome.Alike known) xs zs) (h' : List.Forall₂ (Outcome.Alike known) ys zs) :
    List.Forall₂ Outcome.Same xs ys := by
  induction h generalizing ys with
  | nil =>
    cases h'
    exact List.Forall₂.nil
  | cons halike _ ih =>
    cases h' with
    | cons halike' hrest => exact List.Forall₂.cons (halike.trans halike'.symm).same (ih hrest)

/-- Computations that meet one expectation have the same answers. -/
theorem exists_sameAnswers {known : Nat → Class} {i j : Nat} {good good' : Cache → Prop}
    {act act' : Nat → Machine σ (List Outcome)} {expected : Option (List Outcome)}
    (hact : Meets i good (List.Forall₂ (Outcome.Alike known)) act expected)
    (hact' : Meets j good' (List.Forall₂ (Outcome.Alike known)) act' expected) {w w' : World σ}
    (hw : good (w.cache i)) (hw' : good' (w'.cache j)) : ∃ enough, ∀ depth, enough ≤ depth →
      SameAnswers ((act depth w).map Prod.fst) ((act' depth w').map Prod.fst) ∧
        SameAnswers ((act depth w).map Prod.fst) expected := by
  cases hexpected : expected with
  | none =>
    obtain ⟨enough, hnone⟩ := hact.stalls hexpected w hw
    obtain ⟨enough', hnone'⟩ := hact'.stalls hexpected w' hw'
    refine ⟨max enough enough', fun depth hdepth => ?_⟩
    rw [hnone depth (by omega), hnone' depth (by omega)]
    exact ⟨Option.Rel.none, Option.Rel.none⟩
  | some os =>
    obtain ⟨as, w₁, ⟨enough, hrun⟩, halike, -⟩ := hact.ends os hexpected w hw
    obtain ⟨as', w₁', ⟨enough', hrun'⟩, halike', -⟩ := hact'.ends os hexpected w' hw'
    refine ⟨max enough enough', fun depth hdepth => ?_⟩
    rw [hrun depth (by omega), hrun' depth (by omega)]
    exact ⟨Option.Rel.some (forall₂_same_of_alike halike halike'),
      Option.Rel.some (halike.imp fun _ _ h => h.same)⟩

/-- Function `g` has the checks around the cache and function `g'` has the cache around the checks. Any
sequence of calls, from an empty cache on, has the same answers from both, whatever is evicted in between,
and they are those that the checks expect by the answers of the function. -/
theorem wrapper_order_keeps_answers (code : Code σ) (f h g h' g' : Callable) (s : Signature)
    (policy policy' : CachePolicy) (i j : Nat) (hh : code.Memoizes f policy h i) (hg : code.Wraps h s g)
    (hh' : code.Wraps f s h') (hg' : code.Memoizes h' policy' g' j) (hs : ∀ q, ¬ s.Mentions q)
    (ask : Callable → Value → Bool) (known : Nat → Class) (answers : Key → Option Outcome)
    (hi : code.ActsAs f known answers i) (hj : code.ActsAs f known answers j) (argss : List Key)
    (hargss : ∀ args ∈ argss, ∀ v ∈ args, v.Declared known) (w w' : World σ)
    (hempty : w.cache i = Cache.empty) (hempty' : w'.cache j = Cache.empty) :
    ∃ enough, ∀ depth, enough ≤ depth →
      SameAnswers ((argss.mapM (Machine.call code depth g) w).map Prod.fst)
          ((argss.mapM (Machine.call code depth g') w').map Prod.fst) ∧
        SameAnswers ((argss.mapM (Machine.call code depth g) w).map Prod.fst)
          (argss.mapM fun args => s.expected ask f args (answers args)) := by
  obtain ⟨hcached, hm, hname, hparams⟩ := hh.body
  obtain ⟨hchecked, -⟩ := hg.body
  obtain ⟨hchecked', -⟩ := hh'.body
  obtain ⟨hcached', hm', -⟩ := hg'.body
  have houtside : ∀ args ∈ argss, Meets i (Cache.Expected known answers) (Outcome.Alike known)
      (fun depth => Machine.call code depth g args) (s.expected ask f args (answers args)) := by
    intro args hargs
    have hmiss := hi.meets (hargss args hargs) (Cache.Expected known answers)
    have hmemoized := meets_memoized (hargss args hargs) hi.respects hm hcached hmiss
    have hvalidated := meets_validated hs ask hchecked hmemoized
    rwa [s.expected_of_named ask hname hparams] at hvalidated
  let expected : Key → Option Outcome := fun args => s.expected ask f args (answers args)
  have hrespects : RespectsEquality known expected :=
    Signature.respectsEquality_expected ask f hs hj.respects
  have hinside : ∀ args ∈ argss, Meets j (Cache.Expected known expected) (Outcome.Alike known)
      (fun depth => Machine.call code depth g' args) (expected args) := by
    intro args hargs
    have hf := hj.meets (hargss args hargs) (Cache.Expected known expected)
    have hmiss : Meets j (Cache.Expected known expected) (Outcome.Alike known)
        (fun depth => Machine.call code depth h' args) (expected args) :=
      meets_validated hs ask hchecked' hf
    exact meets_memoized (hargss args hargs) hrespects hm' hcached' hmiss
  have hw : Cache.Expected known answers (w.cache i) := hempty ▸ Cache.expected_empty
  have hw' : Cache.Expected known expected (w'.cache j) := hempty' ▸ Cache.expected_empty
  exact exists_sameAnswers (meets_mapM argss houtside) (meets_mapM argss hinside) hw hw'

def waiting : Key → Program Unit Outcome
  | [] => Program.call ⟨"first", ["x"], 0⟩ []
  | v :: _ => pure (.ok v)

section Waiting

variable {code : Code Unit} (hbody : code.bodies[0]? = some (.program waiting))

include hbody

/-- The body that waits for itself has no result at any depth. -/
theorem call_waiting_nil (depth : Nat) (w : World Unit) :
    Machine.call code depth ⟨"first", ["x"], 0⟩ [] w = none := by
  induction depth generalizing w with
  | zero => rfl
  | succ depth ih =>
    have hasked := ih (w.record (.started 0 []))
    rw [Machine.call_program code [] depth _ _ hbody, Machine.bind_apply]
    change Option.bind (Machine.call code depth ⟨"first", ["x"], 0⟩ [] (w.record (.started 0 []))) _ = none
    rw [hasked]
    rfl

theorem waiting_actsAs (known : Nat → Class) (i : Nat) :
    code.ActsAs ⟨"first", ["x"], 0⟩ known (fun args => args.head?.map Except.ok) i where
  ends args o hargs ho w := by
    obtain ⟨v, hv, rfl⟩ := Option.map_eq_some_iff.mp ho
    cases args with
    | nil => cases hv
    | cons u rest =>
      obtain rfl : u = v := Option.some.inj hv
      have hdeclared : u.Declared known := hargs u (List.mem_cons_self ..)
      have hrun : Machine.call code 1 ⟨"first", ["x"], 0⟩ (u :: rest) w =
          some (.ok u, w.record (.started 0 (u :: rest))) := by
        rw [Machine.call_program code (u :: rest) 0 _ _ hbody]
        rfl
      exact ⟨.ok u, _, Machine.ends_of_call code hrun, ⟨Outcome.same_refl _, hdeclared, hdeclared⟩, rfl⟩
  stalls args _ hnone w := by
    cases args with
    | nil => exact ⟨0, fun depth _ => call_waiting_nil hbody depth w⟩
    | cons u rest => cases hnone
  respects args args' hargs hargs' hequal := by
    cases args with
    | nil =>
      cases args' with
      | nil => exact Option.Rel.none
      | cons => cases hequal
    | cons u rest =>
      cases args' with
      | nil => cases hequal
      | cons u' rest' =>
        obtain ⟨hhead, -⟩ : Value.beq u u' = true ∧ Value.beqItems rest rest' = true := by
          simpa [Value.beqItems] using hequal
        exact Option.Rel.some ⟨hhead, hargs u (List.mem_cons_self ..), hargs' u' (List.mem_cons_self ..)⟩

end Waiting

/-- Caches for one result, equal lists of two allocations, a result that is refused twice, an instance of a
subclass, and a call that the function itself would not answer. -/
theorem wrapper_order_keeps_answers_waiting :
    let f : Callable := ⟨"first", ["x"], 0⟩
    let policy := CachePolicy.bounded 1 Nat.one_pos
    let point := Class.root 0 "Point"
    let pixel := Class.extending 1 "Pixel" point
    let known : Nat → Class := fun id => if id = 1 then pixel else point
    let s : Signature := ⟨[(0, [.any])], [.anyOf [.listOf (.native .number), .instanceOf point]],
      List.pairwise_singleton _ _⟩
    let e₁ := (Engine.define "first" ["x"] (.program waiting) (Engine.start ())).2
    let h := (Engine.memoize f policy e₁).1
    let e₂ := (Engine.memoize f policy e₁).2
    let g := (Engine.wrapWithValidation h s e₂).1
    let e₃ := (Engine.wrapWithValidation h s e₂).2
    let h' := (Engine.wrapWithValidation f s e₃).1
    let e₄ := (Engine.wrapWithValidation f s e₃).2
    let g' := (Engine.memoize h' policy e₄).1
    let e₅ := (Engine.memoize h' policy e₄).2
    let answers : Key → Option Outcome := fun args => args.head?.map Except.ok
    let argss : List Key := [[.list 1 [.int 1]], [.list 2 [.int 1]], [.list 3 [.string "a"]], [],
      [.list 4 [.string "a"]], [.inst pixel 5 []]]
    let ask : Callable → Value → Bool := fun _ _ => false
    e₅.code.Memoizes f policy h 0 ∧ e₅.code.Wraps h s g ∧ e₅.code.Wraps f s h' ∧
      e₅.code.Memoizes h' policy g' 1 ∧ (∀ q, ¬ s.Mentions q) ∧ e₅.code.ActsAs f known answers 0 ∧
      e₅.code.ActsAs f known answers 1 ∧ (∀ args ∈ argss, ∀ v ∈ args, v.Declared known) ∧
      s.argsViolation ask f [] = some ⟨"first", .parameter 0 (some "x"), "Any", "missing"⟩ ∧
      s.resultViolation ask f (.list 3 [.string "a"]) =
        some ⟨"first", .result, "AnyOf(ArrayOf(number), Point)", "array"⟩ ∧
      ∃ enough, ∀ depth, enough ≤ depth →
        SameAnswers ((argss.mapM (Machine.call e₅.code depth g) e₅.world).map Prod.fst)
            ((argss.mapM (Machine.call e₅.code depth g') e₅.world).map Prod.fst) ∧
          SameAnswers ((argss.mapM (Machine.call e₅.code depth g) e₅.world).map Prod.fst)
            (argss.mapM fun args => s.expected ask f args (answers args)) := by
  intro f policy point pixel known s e₁ h e₂ g e₃ h' e₄ g' e₅ answers argss ask
  have hstep₃ : e₂.Extends e₃ := Engine.extends_define _ _ _ _
  have hstep₄ : e₃.Extends e₄ := Engine.extends_define _ _ _ _
  have hstep₅ : e₄.Extends e₅ :=
    (Engine.extends_defineMemoizer e₄ ⟨h', policy⟩).trans (Engine.extends_define _ _ _ _)
  have hh : e₅.code.Memoizes f policy h 0 :=
    Code.memoizes_memoize e₁ e₅ f policy (hstep₃.trans (hstep₄.trans hstep₅))
  have hg : e₅.code.Wraps h s g :=
    Code.wraps_wrapWithValidation e₂ e₅ h s (hstep₄.trans hstep₅)
  have hh' : e₅.code.Wraps f s h' := Code.wraps_wrapWithValidation e₃ e₅ f s hstep₅
  have hg' : e₅.code.Memoizes h' policy g' 1 :=
    Code.memoizes_memoize e₄ e₅ h' policy (Engine.extends_refl e₅)
  have hs : ∀ q, ¬ s.Mentions q := by
    simp [Signature.Mentions, Spec.predicates, Spec.predicatesOf, s]
  have hi : e₅.code.ActsAs f known answers 0 := waiting_actsAs rfl known 0
  have hj : e₅.code.ActsAs f known answers 1 := waiting_actsAs rfl known 1
  have hargss : ∀ args ∈ argss, ∀ v ∈ args, v.Declared known := by
    simp [argss, Value.Declared, Value.classes, Value.classesOfItems, Value.classesOfFields, Value.int,
      known, pixel, Class.id]
  exact ⟨hh, hg, hh', hg', hs, hi, hj, hargss, by decide +kernel, by decide +kernel,
    wrapper_order_keeps_answers e₅.code f h g h' g' s policy policy 0 1 hh hg hh' hg' hs ask known answers
      hi hj argss hargss e₅.world e₅.world rfl rfl⟩

end RuntimeContracts
