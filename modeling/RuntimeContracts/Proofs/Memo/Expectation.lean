import Mathlib.Data.List.Forall2
import RuntimeContracts.Proofs.Machine.Depth
import RuntimeContracts.Proofs.Memo.Settling
import RuntimeContracts.Proofs.Value.Shape

/-!
Computations that meet an expectation. What is expected of a call is an outcome up to exact equality, or
that it never comes to an end. If a function meets what is expected of its answers, and expectations
respect exact equality, then the function behind a cache meets the same, from every cache in which all
results are expected ones; and a sequence of calls meets the sequence of their expectations.
-/
namespace RuntimeContracts

variable {σ α β α' β' : Type}

namespace Outcome

def Declared (known : Nat → Class) : Outcome → Prop
  | .ok v => v.Declared known
  | .error _ => True

/-- The outcomes are the same, and their classes are those that are known. -/
structure Alike (known : Nat → Class) (o o' : Outcome) : Prop where
  same : Same o o'
  left : o.Declared known
  right : o'.Declared known

variable {known : Nat → Class} {o o' o'' : Outcome}

theorem alike_error (known : Nat → Class) (e : CallError) : Alike known (.error e) (.error e) :=
  ⟨rfl, trivial, trivial⟩

theorem Alike.symm (h : Alike known o o') : Alike known o' o := ⟨same_symm h.same, h.right, h.left⟩

theorem Alike.trans (h : Alike known o o') (h' : Alike known o' o'') : Alike known o o'' :=
  ⟨same_trans h.same h'.same, h.left, h'.right⟩

end Outcome

def RespectsEquality (known : Nat → Class) (expected : Key → Option Outcome) : Prop :=
  ∀ args args', (∀ v ∈ args, v.Declared known) → (∀ v ∈ args', v.Declared known) →
    Value.beqItems args args' → Option.Rel (Outcome.Alike known) (expected args) (expected args')

/-- Every result in the cache is what is expected for arguments equal to its key. -/
def Cache.Expected (known : Nat → Class) (expected : Key → Option Outcome) (c : Cache) : Prop :=
  ∀ e ∈ c.entries, ∃ args o, Value.beqItems e.1 args ∧ (∀ v ∈ args, v.Declared known) ∧
    expected args = some o ∧ Outcome.Alike known (.ok e.2) o

/-- From every world in which the cache of memoizer `i` is good, the computation comes to what is expected
and leaves such a world; where nothing is expected, it does not come to an end. -/
structure Meets (i : Nat) (good : Cache → Prop) (rel : α → β → Prop) (act : Nat → Machine σ α)
    (expected : Option β) : Prop where
  ends : ∀ b, expected = some b → ∀ w : World σ, good (w.cache i) →
    ∃ a w', Machine.Ends act w a w' ∧ rel a b ∧ good (w'.cache i)
  stalls : expected = none → ∀ w : World σ, good (w.cache i) → Machine.Stalls act w

section Sequencing

variable {i : Nat} {good : Cache → Prop} {rel : α → β → Prop} {rel' : α' → β' → Prop}

theorem meets_pure {a : α} {b : β} (h : rel a b) :
    Meets i good rel (fun _ => (pure a : Machine σ α)) (some b) where
  ends _ hb w hw := ⟨a, w, Machine.ends_of_eq rfl, Option.some.inj hb ▸ h, hw⟩
  stalls hnone := absurd hnone (Option.some_ne_none b)

/-- Computations one after another meet what is expected of both. -/
theorem meets_bind {act : Nat → Machine σ α} {expected : Option β} {next : α → Nat → Machine σ α'}
    {expected' : β → Option β'} (hact : Meets i good rel act expected)
    (hnext : ∀ a b, rel a b → Meets i good rel' (next a) (expected' b)) :
    Meets i good rel' (fun depth => act depth >>= fun a => next a depth) (expected >>= expected') where
  ends b' hb' w hw := by
    obtain ⟨b, hb, hb'⟩ := Option.bind_eq_some_iff.mp hb'
    obtain ⟨a, w₁, hends, hrel, hw₁⟩ := hact.ends b hb w hw
    obtain ⟨a', w', hends', hrel', hw'⟩ := (hnext a b hrel).ends b' hb' w₁ hw₁
    exact ⟨a', w', hends.bind hends', hrel', hw'⟩
  stalls hnone w hw := by
    cases hexpected : expected with
    | none =>
      obtain ⟨enough, hact⟩ := hact.stalls hexpected w hw
      refine ⟨enough, fun depth hdepth => ?_⟩
      have hbind := Machine.bind_apply (act depth) (fun a => next a depth) w
      rwa [hact depth hdepth] at hbind
    | some b =>
      rw [hexpected] at hnone
      obtain ⟨a, w₁, ⟨enough, hact⟩, hrel, hw₁⟩ := hact.ends b hexpected w hw
      obtain ⟨enough', hnext'⟩ := (hnext a b hrel).stalls hnone w₁ hw₁
      refine ⟨max enough enough', fun depth hdepth => ?_⟩
      have hbind := Machine.bind_apply (act depth) (fun a => next a depth) w
      rw [hact depth (by omega)] at hbind
      exact hbind.trans (hnext' depth (by omega))

/-- Computations one after the other, each of which meets its own expectation. -/
theorem meets_mapM {γ : Type} {act : γ → Nat → Machine σ α} {expected : γ → Option β} (xs : List γ)
    (h : ∀ x ∈ xs, Meets i good rel (act x) (expected x)) :
    Meets i good (List.Forall₂ rel) (fun depth => xs.mapM fun x => act x depth) (xs.mapM expected) := by
  induction xs with
  | nil => exact meets_pure List.Forall₂.nil
  | cons x rest ih =>
    have hrest := ih fun y hy => h y (List.mem_cons_of_mem _ hy)
    simp only [List.mapM_cons]
    exact meets_bind (h x (List.mem_cons_self ..)) fun a b hrel =>
      meets_bind hrest fun as bs hrels => meets_pure (List.Forall₂.cons hrel hrels)

end Sequencing

section Memoized

variable {known : Nat → Class} {expected : Key → Option Outcome}

theorem Cache.expected_empty : Cache.Expected known expected Cache.empty :=
  fun _ he => absurd he List.not_mem_nil

variable {args : Key} (hargs : ∀ v ∈ args, v.Declared known)

include hargs

/-- An expected result may be stored, whatever has to leave for it. -/
theorem Cache.Expected.store {c : Cache} (hc : c.Expected known expected) (policy : CachePolicy)
    {v : Value} {o : Outcome} (ho : expected args = some o) (halike : Outcome.Alike known (.ok v) o) :
    (c.store policy args v).cache.Expected known expected := by
  intro e he
  rcases Cache.mem_entries_store c policy args v e he with hold | ⟨rfl, hkey⟩
  · exact hc e hold
  · exact ⟨args, o, hkey, hargs, ho, halike⟩

variable (hrespects : RespectsEquality known expected)

include hrespects

/-- What is found is expected for the very arguments, which only equal the key. -/
theorem Cache.Expected.of_lookup {c : Cache} (hc : c.Expected known expected) {v : Value}
    (h : c.lookup args = some v) : ∃ o, expected args = some o ∧ Outcome.Alike known (.ok v) o := by
  rw [Cache.lookup, Cache.lookupIn_eq] at h
  obtain ⟨key, hmem, hkey⟩ := Queue.exists_mem_of_lookup _ args v h
  obtain ⟨args', o, hkey', hargs', ho, halike⟩ := hc (key, v) hmem
  have hrel := hrespects args' args hargs' hargs (Value.beqItems_trans (Value.beqItems_symm hkey') hkey)
  rw [ho] at hrel
  generalize expected args = answer at hrel ⊢
  cases hrel with
  | some halike' => exact ⟨_, rfl, halike.trans halike'⟩

/-- A memoized function meets what the function behind it meets. -/
theorem meets_memoized {code : Code σ} {i : Nat} {m : Memoizer} {h : Callable}
    (hm : code.memoizers[i]? = some m) (hh : code.bodies[h.body]? = some (.memoized i))
    (hmiss : Meets i (Cache.Expected known expected) (Outcome.Alike known)
      (fun depth => Machine.call code depth m.function args) (expected args)) :
    Meets i (Cache.Expected known expected) (Outcome.Alike known)
      (fun depth => Machine.call code depth h args) (expected args) where
  ends o ho w hw := by
    cases hlookup : (w.cache i).lookup args with
    | some v =>
      obtain ⟨o', ho', halike⟩ := hw.of_lookup hargs hrespects hlookup
      obtain rfl : o' = o := Option.some.inj (ho'.symm.trans ho)
      exact ⟨.ok v, w.hitting i m args v, Machine.ends_hit hm hh hlookup, halike, hw⟩
    | none =>
      obtain ⟨answer, w₁, hends, halike, hw₁⟩ := hmiss.ends o ho (w.missing i m args) hw
      refine ⟨answer, _, Machine.ends_missed hm hh hlookup hends, halike, ?_⟩
      cases answer with
      | error e => exact hw₁
      | ok v =>
        have hstored := hw₁.store hargs m.policy ho halike
        rwa [World.cache_withActive, World.concluding, World.cache_storeIn]
  stalls hnone w hw := by
    have hlookup : (w.cache i).lookup args = none := by
      cases hlookup : (w.cache i).lookup args with
      | none => rfl
      | some v =>
        obtain ⟨o, ho, -⟩ := hw.of_lookup hargs hrespects hlookup
        cases hnone.symm.trans ho
    have hstalls := hmiss.stalls hnone (w.missing i m args) hw
    have hcalled : Machine.Stalls (fun depth => Machine.callMemoized code (Machine.call code depth) i args)
        w := by
      obtain ⟨enough, hcall⟩ := hstalls
      refine ⟨enough, fun depth hdepth => ?_⟩
      have hnone' := hcall depth hdepth
      simp only [Machine.callMemoized_eq code _ i m args w hm, hlookup] at hnone' ⊢
      rw [hnone', Option.map_none]
    exact hcalled.deeper fun depth => Machine.call_memoized code i args depth h hh

end Memoized

end RuntimeContracts
