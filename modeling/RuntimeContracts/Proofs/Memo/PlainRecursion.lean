import RuntimeContracts.Machine.Run
import RuntimeContracts.Proofs.Value.Equality

/-!
Plain recursion, which is what memoization is compared with. The body of a memoized function computes,
takes new identities and calls back through the memoizer. In the plain recursion a call back runs the
body at once, without any cache. A body respects exact equality when equal arguments and equal answers
take it through equal calls back to an equal end; its plain recursion then has equal outcomes for equal
arguments. Identities do not count, neither which are given nor how many are asked for.
-/
namespace RuntimeContracts

namespace Outcome

def Same : Outcome → Outcome → Prop
  | .ok v, .ok u => Value.beq v u = true
  | .error e, .error e' => e = e'
  | _, _ => False

theorem same_refl (o : Outcome) : Same o o := by
  cases o with
  | ok v => exact Value.beq_refl v
  | error e => exact rfl

theorem same_symm {o o' : Outcome} (h : Same o o') : Same o' o := by
  cases o <;> cases o'
  · exact Eq.symm h
  · exact h
  · exact h
  · exact Value.beq_symm h

theorem same_trans {o o' o'' : Outcome} (h : Same o o') (h' : Same o' o'') : Same o o'' := by
  cases o <;> cases o' <;> cases o''
  · exact Eq.trans h h'
  · exact h'
  · exact h.elim
  · exact h.elim
  · exact h.elim
  · exact h.elim
  · exact h'
  · exact Value.beq_trans h h'

end Outcome

section Recursion

open Program

variable {σ : Type}

def Code.isHandle (code : Code σ) (i : Nat) (f : Callable) : Bool :=
  match code.bodies[f.body]? with
  | some (.memoized j) => j == i
  | _ => false

/-- The call of memoizer `i` that a program begins with, and how it goes on with the outcome. -/
def Program.callBack? (code : Code σ) (i : Nat) :
    Program σ Outcome → Option (Key × (Outcome → Program σ Outcome))
  | .ask (.callMemoized j args) next => if j = i then some (args, next) else none
  | .ask (.call f args) next => if code.isHandle i f then some (args, next) else none
  | _ => none

/-- The plain recursion of the program ends with the outcome: a call back to the memoizer is answered by
the body, whatever a cache may hold. -/
inductive Program.Plain (code : Code σ) (i : Nat) (body : Key → Program σ Outcome) :
    Program σ Outcome → Outcome → Prop
  | done (o : Outcome) : Plain code i body (.done o) o
  | fresh {next : Nat → Program σ Outcome} {o : Outcome} (n : Nat)
      (rest : Plain code i body (next n) o) : Plain code i body (.ask .fresh next) o
  | back {p : Program σ Outcome} {args : Key} {next : Outcome → Program σ Outcome}
      {answer o : Outcome} (hcall : p.callBack? code i = some (args, next))
      (inner : Plain code i body (body args) answer) (rest : Plain code i body (next answer) o) :
      Plain code i body p o

/-- The programs make the same calls back and end alike, up to exact equality of what they pass on.
Either may take identities in between, of which the other need not know. -/
inductive Program.Alike (code : Code σ) (i : Nat) : Program σ Outcome → Program σ Outcome → Prop
  | done {o o' : Outcome} (h : Outcome.Same o o') : Alike code i (.done o) (.done o')
  | freshLeft {next : Nat → Program σ Outcome} {p' : Program σ Outcome}
      (rest : ∀ n, Alike code i (next n) p') : Alike code i (.ask .fresh next) p'
  | freshRight {p : Program σ Outcome} {next' : Nat → Program σ Outcome}
      (rest : ∀ n, Alike code i p (next' n)) : Alike code i p (.ask .fresh next')
  | back {p p' : Program σ Outcome} {args args' : Key} {next next' : Outcome → Program σ Outcome}
      (hcall : p.callBack? code i = some (args, next))
      (hcall' : p'.callBack? code i = some (args', next'))
      (hargs : Value.beqItems args args')
      (rest : ∀ o o', Outcome.Same o o' → Alike code i (next o) (next' o')) : Alike code i p p'

inductive Program.Comes (target : Program σ Outcome → Prop) : Program σ Outcome → Prop
  | here {p : Program σ Outcome} (h : target p) : Comes target p
  | fresh {next : Nat → Program σ Outcome} (rest : ∀ n, Comes target (next n)) :
      Comes target (.ask .fresh next)

theorem Code.bodies_of_isHandle (code : Code σ) (i : Nat) (f : Callable) (h : code.isHandle i f) :
    code.bodies[f.body]? = some (.memoized i) := by
  unfold Code.isHandle at h
  split at h
  · rename_i j hbody
    obtain rfl : j = i := by simpa using h
    exact hbody
  · exact absurd h Bool.false_ne_true

variable {code : Code σ} {i : Nat} {body : Key → Program σ Outcome} {p q : Program σ Outcome}

theorem Program.Alike.done_left {o : Outcome} (h : Alike code i (.done o) q) :
    Comes (fun q' => ∃ o', q' = .done o' ∧ Outcome.Same o o') q := by
  generalize hp : Program.done o = p at h
  induction h with
  | done hsame =>
    cases hp
    exact Comes.here ⟨_, rfl, hsame⟩
  | freshLeft => cases hp
  | freshRight rest ih => exact Comes.fresh fun n => ih n hp
  | back hcall =>
    cases hp
    cases hcall

theorem Program.Alike.fresh_left {next : Nat → Program σ Outcome}
    (h : Alike code i (.ask .fresh next) q) (n : Nat) : Alike code i (next n) q := by
  generalize hp : Program.ask .fresh next = p at h
  induction h with
  | done => cases hp
  | freshLeft rest =>
    cases hp
    exact rest n
  | freshRight rest ih => exact Alike.freshRight fun k => ih k hp
  | back hcall =>
    cases hp
    cases hcall

theorem Program.Alike.back_left {args : Key} {next : Outcome → Program σ Outcome}
    (h : Alike code i p q) (hcall : p.callBack? code i = some (args, next)) :
    Comes (fun q' => ∃ args' next', q'.callBack? code i = some (args', next') ∧
      Value.beqItems args args' ∧
      ∀ o o', Outcome.Same o o' → Alike code i (next o) (next' o')) q := by
  induction h with
  | done => cases hcall
  | freshLeft => cases hcall
  | freshRight rest ih => exact Comes.fresh fun n => ih n hcall
  | back hcall₁ hcall' hargs rest =>
    obtain ⟨rfl, rfl⟩ := Prod.mk.inj (Option.some.inj (hcall₁.symm.trans hcall))
    exact Comes.here ⟨_, _, hcall', hargs, rest⟩

/-- The plain recursion of a program comes to the set as well, with its outcome. -/
theorem Program.Plain.comes {target : Program σ Outcome → Prop} {o : Outcome}
    (hp : Plain code i body p o) (h : Comes target p) :
    ∃ p', target p' ∧ Plain code i body p' o := by
  induction h generalizing o with
  | here h => exact ⟨_, h, hp⟩
  | fresh rest ih =>
    cases hp with
    | fresh n hrest => exact ih n hrest
    | back hcall => cases hcall

/-- Plain recursions of programs that are alike end alike. -/
theorem Program.Plain.same (hbody : ∀ args args', Value.beqItems args args' →
      Alike code i (body args) (body args'))
    {o o' : Outcome} (hp : Plain code i body p o) (hq : Plain code i body q o')
    (h : Alike code i p q) : Outcome.Same o o' := by
  induction hp generalizing q o' with
  | done o =>
    obtain ⟨_, ⟨o₁, rfl, hsame⟩, hq'⟩ := hq.comes h.done_left
    cases hq' with
    | done => exact hsame
    | back hcall => cases hcall
  | fresh n rest ih => exact ih hq (h.fresh_left n)
  | back hcall inner rest ih ih' =>
    obtain ⟨q', ⟨args', next', hcall', hargs, hnext⟩, hq'⟩ := hq.comes (h.back_left hcall)
    cases hq' with
    | done => cases hcall'
    | fresh => cases hcall'
    | back hcall₁ inner' rest' =>
      obtain ⟨rfl, rfl⟩ := Prod.mk.inj (Option.some.inj (hcall₁.symm.trans hcall'))
      exact ih' rest' (hnext _ _ (ih inner' (hbody _ _ hargs)))

/-- The plain recursion of the body ends with these outcomes, and the body respects exact equality. -/
structure Program.Computes (code : Code σ) (i : Nat) (body : Key → Program σ Outcome)
    (r : Key → Outcome) : Prop where
  ends : ∀ args, Plain code i body (body args) (r args)
  respects : ∀ args args', Value.beqItems args args' → Alike code i (body args) (body args')

/-- Equal arguments have the same outcome. -/
theorem Program.Computes.same {r : Key → Outcome} (h : Computes code i body r) (args args' : Key)
    (hargs : Value.beqItems args args') : Outcome.Same (r args) (r args') :=
  (h.ends args).same h.respects (h.ends args') (h.respects args args' hargs)

end Recursion

end RuntimeContracts
