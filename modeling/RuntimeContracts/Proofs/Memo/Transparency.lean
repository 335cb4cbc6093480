import Mathlib.Data.List.Forall2
import RuntimeContracts.Proofs.Memo.Settling

/-!
Memoization is transparent, recursion included. If the plain recursion of a body ends on all arguments
and the body respects exact equality, then every call of the memoizer ends, with the outcome of the plain
recursion up to exact equality. What is evicted or cleared in the middle of a recursion does not matter,
nor which of several equal argument lists was seen first.
-/
namespace RuntimeContracts

/-- What may be done with a memoizer: calls of its own or through a function made from it, clears and
look-ups. -/
inductive Use where
  | call (args : Key)
  | through (handle : Callable) (args : Key)
  | clear
  | lookup (args : Key)

inductive Reply where
  | outcome (o : Outcome)
  | done
  | found (answer : Option Value)

namespace Use

variable {σ : Type}

def program (i : Nat) : Use → Program σ Reply
  | call args => do return .outcome (← Program.callMemoized i args)
  | through f args => do return .outcome (← Program.call f args)
  | clear => do
    Program.clear i
    return .done
  | lookup args => do return .found (← Program.lookup i args)

def programs (i : Nat) : List Use → Program σ (List Reply)
  | [] => pure []
  | use :: rest => do
    let reply ← use.program i
    let replies ← programs i rest
    return reply :: replies

/-- The functions through which memoizer `i` is used are made from it. -/
def Proper (code : Code σ) (i : Nat) : Use → Prop
  | through f _ => code.isHandle i f
  | _ => True

/-- Calls are answered with the outcome for their arguments, and what is found is such an outcome. -/
def Right (r : Key → Outcome) : Use → Reply → Prop
  | call args, .outcome o => Outcome.Same o (r args)
  | through _ args, .outcome o => Outcome.Same o (r args)
  | clear, .done => True
  | lookup args, .found answer => ∀ v, answer = some v → Outcome.Same (.ok v) (r args)
  | _, _ => False

end Use

section Transparency

variable {σ : Type} {i : Nat} {r : Key → Outcome} {code : Code σ} {m : Memoizer}
  {body : Key → Program σ Outcome} (hm : code.memoizers[i]? = some m)
  (hbody : code.bodies[m.function.body]? = some (.program body))
  (hr : Program.Computes code i body r)

include hm hbody hr

/-- A memoized call settles if the body does on the same arguments. -/
theorem settles_call_of_body (args : Key)
    (h : Settles i r (fun depth => Machine.runProgram code (Machine.call code depth) (body args))
      fun o => Outcome.Same o (r args)) :
    Settles i r (fun depth => Machine.callMemoized code (Machine.call code depth) i args)
      fun o => Outcome.Same o (r args) :=
  settles_callMemoized code m hm hr.same args (settles_body code m.function args body hbody h)

/-- A program that is like one whose plain recursion ends settles on the same outcome. The calls back
that it makes differ from those of the plain recursion, but only up to exact equality. -/
theorem settles_of_plain {p q : Program σ Outcome} {o : Outcome}
    (hp : Program.Plain code i body p o) (h : Program.Alike code i p q) :
    Settles i r (fun depth => Machine.runProgram code (Machine.call code depth) q)
      fun o' => Outcome.Same o' o := by
  induction hp generalizing q with
  | done o =>
    apply settles_comes code h.done_left
    intro q' hq'
    obtain ⟨o', rfl, hsame⟩ := hq'
    exact settles_pure o' (Outcome.same_symm hsame)
  | fresh n rest ih => exact ih (h.fresh_left n)
  | @back p args next answer o hcall inner rest ih ih' =>
    apply settles_comes code (h.back_left hcall)
    intro q' hq'
    obtain ⟨args', next', hcall', hargs, hnext⟩ := hq'
    have halike := hr.respects args args' hargs
    have hanswer : Outcome.Same answer (r args') := inner.same hr.respects (hr.ends args') halike
    have hinner := (ih halike).mono fun o' ho' => Outcome.same_trans ho' hanswer
    refine settles_callBack code q' args' next' hcall'
      (settles_call_of_body hm hbody hr args' hinner) fun o' ho' => ih' (hnext answer o' ?_)
    exact Outcome.same_trans hanswer (Outcome.same_symm ho')

theorem settles_call (args : Key) :
    Settles i r (fun depth => Machine.callMemoized code (Machine.call code depth) i args)
      fun o => Outcome.Same o (r args) :=
  settles_call_of_body hm hbody hr args <|
    settles_of_plain hm hbody hr (hr.ends args) (hr.respects args args (Value.beqItems_refl args))

theorem settles_use (use : Use) (huse : use.Proper code i) :
    Settles i r (fun depth => Machine.runProgram code (Machine.call code depth) (use.program i))
      (use.Right r) := by
  cases use with
  | call args =>
    exact settles_bind (settles_call hm hbody hr args) fun o ho => settles_pure (Reply.outcome o) ho
  | through f args =>
    have hhandle := settles_handle code f args huse (settles_call hm hbody hr args)
    exact settles_bind hhandle fun o ho => settles_pure (Reply.outcome o) ho
  | clear => exact settles_bind (settles_clear code m hm) fun _ _ => settles_pure Reply.done trivial
  | lookup args =>
    exact settles_bind (settles_lookup code m hm hr.same args) fun answer hanswer =>
      settles_pure (Reply.found answer) hanswer

/-- Any number of uses settles, each with the reply that is right for it. -/
theorem settles_uses (uses : List Use) (huses : ∀ use ∈ uses, use.Proper code i) :
    Settles i r (fun depth => Machine.runProgram code (Machine.call code depth) (Use.programs i uses))
      (List.Forall₂ (Use.Right r) uses) := by
  induction uses with
  | nil => exact settles_pure [] List.Forall₂.nil
  | cons use rest ih =>
    have huse := settles_use hm hbody hr use (huses use (List.mem_cons_self ..))
    have hrest := ih fun u hu => huses u (List.mem_cons_of_mem _ hu)
    simp only [Use.programs, Machine.runProgram_bind]
    exact settles_bind huse fun reply hreply => settles_bind hrest fun replies hreplies =>
      settles_pure (reply :: replies) (List.Forall₂.cons hreply hreplies)

end Transparency

/-- Memoization is transparent. Any uses of a memoizer, one after another and from an empty cache on, all
come to an end, and their replies are those of the plain recursion, for every policy of the cache. -/
theorem memoization_transparent {σ : Type} (code : Code σ) (i : Nat) (m : Memoizer)
    (body : Key → Program σ Outcome) (r : Key → Outcome) (hm : code.memoizers[i]? = some m)
    (hbody : code.bodies[m.function.body]? = some (.program body))
    (hr : Program.Computes code i body r) (uses : List Use)
    (huses : ∀ use ∈ uses, use.Proper code i) (w : World σ) (hempty : w.cache i = Cache.empty) :
    ∃ replies w' enough, List.Forall₂ (Use.Right r) uses replies ∧
      ∀ depth, enough ≤ depth →
        Machine.runProgram code (Machine.call code depth) (Use.programs i uses) w =
          some (replies, w') := by
  have hw : w.Agrees i r := by
    intro e he
    rw [hempty] at he
    cases he
  obtain ⟨replies, w', enough, hrun, hright, -⟩ := settles_uses hm hbody hr uses huses w hw
  exact ⟨replies, w', enough, hright, hrun⟩

def nesting : Key → Program Unit Outcome
  | [] => pure (.ok .null)
  | _ :: rest => do
    let id ← Program.fresh
    match ← Program.callMemoized 0 rest with
    | .ok v => pure (.ok (.list id [v]))
    | .error e => pure (.error e)

def nested : Key → Value
  | [] => .null
  | _ :: rest => .list 0 [nested rest]

theorem nesting_computes (code : Code Unit) :
    Program.Computes code 0 nesting fun args => .ok (nested args) where
  ends args := by
    induction args with
    | nil => exact Program.Plain.done _
    | cons x rest ih =>
      exact Program.Plain.fresh 0 (Program.Plain.back rfl ih (Program.Plain.done _))
  respects args args' hargs := by
    cases args with
    | nil =>
      cases args' with
      | nil => exact Program.Alike.done (Outcome.same_refl _)
      | cons => cases hargs
    | cons x rest =>
      cases args' with
      | nil => cases hargs
      | cons x' rest' =>
        obtain ⟨-, hrest⟩ : Value.beq x x' = true ∧ Value.beqItems rest rest' = true := by
          simpa [Value.beqItems] using hargs
        refine Program.Alike.freshLeft fun _ => Program.Alike.freshRight fun _ => ?_
        apply Program.Alike.back rfl rfl hrest
        intro o o' hsame
        cases o <;> cases o'
        · exact Program.Alike.done hsame
        · exact hsame.elim
        · exact hsame.elim
        · refine Program.Alike.done ?_
          simpa [Outcome.Same, Value.beq, Value.beqItems] using hsame

/-- A cache for one result is enough, also with the recursion going through it. -/
theorem memoization_transparent_nesting :
    let code : Code Unit :=
      ⟨#[.program nesting, .memoized 0], #[⟨⟨"nest", [], 0⟩, .bounded 1 Nat.one_pos⟩]⟩
    let uses : List Use := [.call [.null, .null], .lookup [.null, .null], .clear,
      .through ⟨"nest", [], 1⟩ [.undefined], .lookup [.null]]
    (∀ use ∈ uses, use.Proper code 0) ∧
      ∃ replies w' enough,
        List.Forall₂ (Use.Right fun args => .ok (nested args)) uses replies ∧
        ∀ depth, enough ≤ depth →
          Machine.runProgram code (Machine.call code depth) (Use.programs 0 uses)
            (World.start ()) = some (replies, w') := by
  intro code uses
  have huses : ∀ use ∈ uses, use.Proper code 0 := by
    simp [uses, Use.Proper, Code.isHandle, code]
  exact ⟨huses, memoization_transparent code 0 _ nesting _ rfl rfl (nesting_computes code) uses huses
    (World.start ()) rfl⟩

end RuntimeContracts
