import RuntimeContracts.Proofs.Machine.Depth
import RuntimeContracts.Proofs.Memo.Settling
import RuntimeContracts.Proofs.Spec.Renaming

/-!
Memoized predicates. A predicate accepts a value by returning this very value, while its cache takes equal
values for one; so a memoized predicate that has been asked about a list rejects an equal list of another
allocation, which it would accept if it were not memoized. It accepts what the plain one accepts as long as
no value that it is asked about can be confused with an earlier one.
-/
namespace RuntimeContracts

variable {σ γ : Type}

/-- The values are equal, and the result for the first, returned for the second, would change whether the
second is accepted. -/
def Confuses (r : Value → Outcome) (u v : Value) : Prop :=
  Value.beq u v ∧ ∃ x, r u = .ok x ∧ x.same v ≠ (r v).passes v

def Unmistakable (r : Value → Outcome) (asked : List Value) : Prop :=
  asked.Pairwise fun u v => ¬ Confuses r u v

/-- Values for which the predicate returns its argument are confused only if they are of different
allocations. -/
theorem not_confuses_of_same {r : Value → Outcome} {u v : Value} (hu : r u = .ok u) (hv : r v = .ok v)
    (hsame : u.same v = v.same v) : ¬ Confuses r u v := by
  rintro ⟨-, x, hx, hne⟩
  obtain rfl : u = x := Except.ok.inj (hu.symm.trans hx)
  apply hne
  rw [hv, hsame]
  rfl

/-- Matching on paper. Predicate `p` answers as `r` says, and what it is asked about is written down; what
the others do is a function of a view of the world, which they may change. -/
def inquire (p : Callable) (r : Value → Outcome) (act : Callable → Value → γ → Bool × γ) (q : Callable)
    (v : Value) : StateM (γ × List Value) Bool := fun (x, asked) =>
  if q == p then ((r v).passes v, (x, asked ++ [v]))
  else ((act q v x).1, ((act q v x).2, asked))

def Spec.asked (s : Spec) (p : Callable) (r : Value → Outcome) (act : Callable → Value → γ → Bool × γ)
    (x : γ) (vs : List Value) : List Value :=
  ((vs.mapM fun v => s.matchesM (inquire p r act) v) (x, [])).run.2.2

/-- The view of the world has nothing of the cache of memoizer `i`, of its use and of predicates that
raise. -/
structure World.Hides (view : World σ → γ) (i : Nat) : Prop where
  calls : ∀ w names, view (w.withActive names) = view w
  cache : ∀ w c, view (w.setCache i c) = view w
  notes : ∀ w m step, view (w.note i m step) = view w
  raised : ∀ (w : World σ) name e, view (w.record (.predicateRaised name e)) = view w

/-- Predicate `p` is pure, with the outcomes `r`. The other predicates of the spec come to an end, with
an effect that the view determines, and leave the cache of memoizer `i`. -/
structure Code.Answers (code : Code σ) (s : Spec) (p : Callable) (r : Value → Outcome)
    (act : Callable → Value → γ → Bool × γ) (view : World σ → γ) (i : Nat) : Prop where
  pure : ∀ v, Machine.Settled (fun w => (view w, w.cache i)) (fun depth => Machine.call code depth p [v])
    (r v)
  others : ∀ q ∈ s.predicates, (q == p) = false → ∀ v w, ∃ w',
    Machine.Ends (Machine.deepPasses code q v) w (act q v (view w)).1 w' ∧
      view w' = (act q v (view w)).2 ∧ w'.cache i = w.cache i

def World.Recalls (w : World σ) (i : Nat) (r : Value → Outcome) (asked : List Value) : Prop :=
  ∀ e ∈ (w.cache i).entries, ∃ u ∈ asked, Value.beqItems e.1 [u] ∧ r u = .ok e.2

namespace World

variable {i : Nat} {r : Value → Outcome} {asked : List Value} {w w' : World σ}

theorem Recalls.of_cache (h : w.Recalls i r asked) (hcache : w'.cache i = w.cache i) :
    w'.Recalls i r asked := by
  intro e he
  rw [hcache] at he
  exact h e he

/-- What has been asked about stays so when there is more. -/
theorem Recalls.snoc (h : w.Recalls i r asked) (v : Value) : w.Recalls i r (asked ++ [v]) := by
  intro e he
  obtain ⟨u, hu, hkey⟩ := h e he
  exact ⟨u, List.mem_append_left _ hu, hkey⟩

/-- The outcome for a value that has just been asked about may go into the cache. -/
theorem Recalls.concluding (h : w.Recalls i r asked) (m : Memoizer) (v : Value) :
    (w.concluding i m [v] (r v)).Recalls i r (asked ++ [v]) := by
  cases hr : r v with
  | error e => exact (h.snoc v).of_cache rfl
  | ok x =>
    intro e he
    rw [World.concluding, cache_storeIn, cache_note] at he
    rcases Cache.mem_entries_store _ m.policy [v] x e he with hold | ⟨hx, hkey⟩
    · exact h.snoc v e hold
    · exact ⟨v, List.mem_append_right _ (List.mem_singleton_self v), hkey, hr.trans (congrArg _ hx.symm)⟩

/-- What is found for a value answers the question as the predicate would, if the value is not confused
with any before it. -/
theorem Recalls.same_of_lookup (h : w.Recalls i r asked) {v x : Value}
    (hlookup : (w.cache i).lookup [v] = some x) (hunmistakable : Unmistakable r (asked ++ [v])) :
    x.same v = (r v).passes v := by
  rw [Cache.lookup, Cache.lookupIn_eq] at hlookup
  obtain ⟨key, hmem, hkey⟩ := Queue.exists_mem_of_lookup _ [v] x hlookup
  obtain ⟨u, hu, hasked, hr⟩ := h (key, x) hmem
  have hequal : Value.beqItems [u] [v] = true :=
    Value.beqItems_trans (Value.beqItems_symm hasked) hkey
  have hbeq : Value.beq u v = true := by simpa [Value.beqItems] using hequal
  have hclear : ¬ Confuses r u v :=
    (List.pairwise_append.mp hunmistakable).2.2 u hu v (List.mem_singleton_self v)
  exact Classical.not_not.mp fun hne => hclear ⟨hbeq, x, hr, hne⟩

variable {view : World σ → γ} (hview : Hides view i)

include hview

theorem Hides.noteAll (m : Memoizer) (steps : List CacheStep) (w : World σ) :
    view (w.noteAll i m steps) = view w := by
  induction steps generalizing w with
  | nil => rfl
  | cons step rest ih => exact (ih (w.note i m step)).trans (hview.notes w m step)

theorem Hides.concluding (m : Memoizer) (args : Key) (outcome : Outcome) (w : World σ) :
    view (w.concluding i m args outcome) = view w := by
  cases outcome with
  | error e => exact hview.notes w m _
  | ok v =>
    rw [World.concluding, storeIn, hview.noteAll, hview.cache, hview.notes]

end World

namespace Machine

def inquiring (view : World σ → γ) (i : Nat) (r : Value → Outcome) :
    Simulation (StateM (γ × List Value)) (ReaderT Nat (Machine σ)) where
  Rel c act := ∀ x asked, asked <+: (c (x, asked)).run.2.2 ∧
    ∀ w, view w = x → w.Recalls i r asked → Unmistakable r (c (x, asked)).run.2.2 →
      ∃ w', Ends act w (c (x, asked)).run.1 w' ∧ view w' = (c (x, asked)).run.2.1 ∧
        w'.Recalls i r (c (x, asked)).run.2.2
  rel_pure a x asked := ⟨List.prefix_rfl, fun w hw hrecalls _ => ⟨w, ends_of_eq rfl, hw, hrecalls⟩⟩
  rel_bind := by
    intro α β c act k l hc hk x asked
    obtain ⟨hgrown, hfirst⟩ := hc x asked
    obtain ⟨hgrown', hsecond⟩ := hk (c (x, asked)).run.1 (c (x, asked)).run.2.1 (c (x, asked)).run.2.2
    refine ⟨hgrown.trans hgrown', fun w hw hrecalls hunmistakable => ?_⟩
    have hbefore : Unmistakable r (c (x, asked)).run.2.2 := hunmistakable.sublist hgrown'.sublist
    obtain ⟨w₁, hends, hw₁, hrecalls₁⟩ := hfirst w hw hrecalls hbefore
    obtain ⟨w₂, hends', hw₂, hrecalls₂⟩ := hsecond w₁ hw₁ hrecalls₁ hunmistakable
    exact ⟨w₂, hends.bind hends', hw₂, hrecalls₂⟩

section Asking

variable {code : Code σ} {s : Spec} {p q : Callable} {r : Value → Outcome}
  {act : Callable → Value → γ → Bool × γ} {view : World σ → γ} {i : Nat}

theorem inquire_of_eq (hq : (q == p) = true) (v : Value) (x : γ) (asked : List Value) :
    inquire p r act q v (x, asked) = ((r v).passes v, (x, asked ++ [v])) := by
  rw [inquire, if_pos hq]

theorem inquire_of_ne (hq : (q == p) = false) (v : Value) (x : γ) (asked : List Value) :
    inquire p r act q v (x, asked) = ((act q v x).1, ((act q v x).2, asked)) := by
  rw [inquire, hq, if_neg Bool.false_ne_true]

/-- Calls of one body go the same way under all names. -/
theorem call_congr (code : Code σ) (hbody : q.body = p.body) (depth : Nat) (args : Key) :
    call code depth q args = call code depth p args := by
  cases depth with
  | zero => rfl
  | succ depth =>
    simp only [call, hbody]
    cases code.bodies[p.body]? with
    | none => rfl
    | some body => cases body <;> simp only [runBody, hbody]

variable (hview : World.Hides view i) (hcode : code.Answers s p r act view i)

include hview hcode

/-- A question to the predicate as it is. -/
theorem inquiring_plain (hq : (q == p) = true) (v : Value) :
    (inquiring view i r).Rel (inquire p r act q v) (deepPasses code q v) := by
  intro x asked
  rw [inquire_of_eq hq]
  refine ⟨List.prefix_append asked [v], fun w hw hrecalls _ => ?_⟩
  obtain ⟨w₁, ⟨enough, hrun⟩, hsame⟩ := hcode.pure v w
  obtain ⟨hsame, hcache⟩ := Prod.mk.inj hsame
  have hends : Ends (fun depth => call code depth q [v]) w (r v) w₁ := by
    refine ⟨enough, fun depth hdepth => ?_⟩
    exact (congrFun (call_congr code (eq_of_beq hq) depth [v]) w).trans (hrun depth hdepth)
  refine ⟨w₁.recordRaised q (r v), ends_deepPasses hends, ?_, ?_⟩
  · rw [World.view_recordRaised fun w e => hview.raised w q.name e, hsame, hw]
    rfl
  · exact (hrecalls.snoc v).of_cache ((World.cache_recordRaised w₁ i q (r v)).trans hcache)

omit hview in
/-- A question to another predicate. -/
theorem inquiring_other (hmem : q ∈ s.predicates) (hq : (q == p) = false) (v : Value) :
    (inquiring view i r).Rel (inquire p r act q v) (deepPasses code q v) := by
  intro x asked
  rw [inquire_of_ne hq]
  refine ⟨List.prefix_rfl, fun w hw hrecalls _ => ?_⟩
  obtain ⟨w', hends, hsame, hcache⟩ := hcode.others q hmem hq v w
  rw [hw] at hends hsame
  exact ⟨w', hends, hsame, hrecalls.of_cache hcache⟩

/-- A question to the memoized predicate, whether it is in the cache or not. -/
theorem inquiring_memoized {p' : Callable} {policy : CachePolicy}
    (hp' : code.bodies[p'.body]? = some (.memoized i)) (hm : code.memoizers[i]? = some ⟨p, policy⟩)
    (hq : (q == p) = true) (v : Value) :
    (inquiring view i r).Rel (inquire p r act q v) (deepPasses code p' v) := by
  intro x asked
  rw [inquire_of_eq hq]
  refine ⟨List.prefix_append asked [v], fun w hw hrecalls hunmistakable => ?_⟩
  cases hlookup : (w.cache i).lookup [v] with
  | some y =>
    have hends := ends_deepPasses (ends_hit hm hp' hlookup)
    have hanswer : Outcome.passes (.ok y) v = (r v).passes v :=
      hrecalls.same_of_lookup hlookup hunmistakable
    rw [hanswer] at hends
    refine ⟨w.hitting i _ [v] y, hends, ?_, (hrecalls.snoc v).of_cache rfl⟩
    rw [World.view_hitting hview.calls (hview.notes · _)]
    exact hw
  | none =>
    obtain ⟨w₁, hasked, hsame⟩ := hcode.pure v (w.missing i ⟨p, policy⟩ [v])
    obtain ⟨hsame, hcache⟩ := Prod.mk.inj hsame
    let w₂ := (w₁.concluding i ⟨p, policy⟩ [v] (r v)).withActive w.active
    have hends : Ends (fun depth => call code depth p' [v]) w (r v) w₂ :=
      ends_missed hm hp' hlookup hasked
    refine ⟨w₂.recordRaised p' (r v), ends_deepPasses hends, ?_, ?_⟩
    · rw [World.view_recordRaised fun w e => hview.raised w p'.name e, hview.calls, hview.concluding,
        hsame, World.view_missing hview.calls (hview.notes · _)]
      exact hw
    · have hconcluded := (hrecalls.of_cache hcache).concluding ⟨p, policy⟩ v
      exact hconcluded.of_cache (World.cache_recordRaised w₂ i p' (r v))

/-- Matching on paper goes as matching in the machine, be the predicate plain or memoized. -/
theorem inquiring_matches (v : Value) :
    (inquiring view i r).Rel (s.matchesM (inquire p r act) v) (deepFits code s (some v)) := by
  refine (inquiring view i r).rel_matchesM (deepPasses code) s v fun q hmem u => ?_
  cases hq : q == p with
  | true => exact inquiring_plain hview hcode hq u
  | false => exact inquiring_other hcode hmem hq u

theorem inquiring_matches_replace {p' : Callable} {policy : CachePolicy}
    (hp' : code.bodies[p'.body]? = some (.memoized i)) (hm : code.memoizers[i]? = some ⟨p, policy⟩)
    (v : Value) : (inquiring view i r).Rel (s.matchesM (inquire p r act) v)
      (deepFits code (s.replace p p') (some v)) := by
  have hrename : deepFits code (s.replace p p') (some v) =
      s.matchesM (fun q u => deepPasses code (if q == p then p' else q) u) v :=
    Spec.matchesM_rename (deepPasses code) _ s v
  rw [hrename]
  refine (inquiring view i r).rel_matchesM _ s v fun q hmem u => ?_
  cases hq : q == p with
  | true => exact inquiring_memoized hview hcode hp' hm hq u
  | false => exact inquiring_other hcode hmem hq u

end Asking

def matchAll (call : Caller σ) (s : Spec) (vs : List Value) : Machine σ (List Bool) :=
  vs.mapM fun v => fits call s (some v)

theorem matchAll_eq (code : Code σ) (depth : Nat) (s : Spec) (vs : List Value) :
    (vs.mapM fun v => deepFits code s (some v)) depth = matchAll (call code depth) s vs :=
  (atDepth depth).rel_mapM _ (fun v => fits (call code depth) s (some v)) vs
    fun v => deepFits_apply code depth s (some v)

section Matching

variable {code : Code σ} {t : Spec} {view : World σ → γ} {i : Nat} {r : Value → Outcome}
  {paper : Value → StateM (γ × List Value) Bool}
  (ht : ∀ v, (inquiring view i r).Rel (paper v) (deepFits code t (some v))) (w : World σ)
  {asked : List Value} (hrecalls : w.Recalls i r asked)

include ht hrecalls

/-- A value is matched in the machine as on paper. -/
theorem exists_fits {v : Value} {b : Bool} {after : γ × List Value}
    (hpaper : paper v (view w, asked) = (b, after)) (hclear : Unmistakable r after.2) :
    ∃ w', Ends (fun depth => fits (call code depth) t (some v)) w b w' := by
  obtain ⟨-, hmatch⟩ := ht v (view w) asked
  rw [hpaper] at hmatch
  obtain ⟨w', hends, -⟩ := hmatch w rfl hrecalls hclear
  rw [funext fun depth => deepFits_apply code depth t (some v)] at hends
  exact ⟨w', hends⟩

/-- All of the values are, and what is in the cache afterwards has been asked about. -/
theorem exists_matchAll {vs : List Value} {answers : List Bool} {after : γ × List Value}
    (hpaper : (vs.mapM paper) (view w, asked) = (answers, after)) (hclear : Unmistakable r after.2) :
    ∃ w', Ends (fun depth => matchAll (call code depth) t vs) w answers w' ∧ view w' = after.1 ∧
      w'.Recalls i r after.2 := by
  obtain ⟨-, hmatch⟩ := (inquiring view i r).rel_mapM _ _ vs ht (view w) asked
  rw [hpaper] at hmatch
  obtain ⟨w', hends, hview, hrecalls'⟩ := hmatch w rfl hrecalls hclear
  rw [funext fun depth => matchAll_eq code depth t vs] at hends
  exact ⟨w', hends, hview, hrecalls'⟩

end Matching

end Machine

/-- Matching one value more on paper. -/
theorem mapM_snoc {α : Type} (c : α → StateM (γ × List Value) Bool) (vs : List α) (v : α)
    (start : γ × List Value) :
    ((vs ++ [v]).mapM c) start = (do
      let (answers, between) := (vs.mapM c) start
      let (b, after) := c v between
      (answers ++ [b], after) : Id (List Bool × γ × List Value)) := by
  rw [List.mapM_append, List.mapM_cons, List.mapM_nil]
  rfl

/-- A memoized predicate accepts what the plain one accepts, if no value that it is asked about is
confused with an earlier one. This goes for all of the values, and for the last one also next to the plain
predicate in the same world. -/
theorem memoized_predicate_accepts_alike (code : Code σ) (s : Spec) (p p' : Callable) (i : Nat)
    (policy : CachePolicy) (hp' : code.bodies[p'.body]? = some (.memoized i))
    (hm : code.memoizers[i]? = some ⟨p, policy⟩) (r : Value → Outcome)
    (act : Callable → Value → γ → Bool × γ) (view : World σ → γ) (hview : World.Hides view i)
    (hcode : code.Answers s p r act view i) (vs : List Value) (v : Value) (w : World σ)
    (hfresh : w.cache i = Cache.empty)
    (hunmistakable : Unmistakable r (s.asked p r act (view w) (vs ++ [v]))) :
    ∃ answers b w₁ enough, ∀ depth, enough ≤ depth →
      Machine.matchAll (Machine.call code depth) (s.replace p p') vs w = some (answers, w₁) ∧
      (Machine.fits (Machine.call code depth) (s.replace p p') (some v) w₁).map Prod.fst = some b ∧
      (Machine.fits (Machine.call code depth) s (some v) w₁).map Prod.fst = some b ∧
      (Machine.matchAll (Machine.call code depth) s (vs ++ [v]) w).map Prod.fst =
        some (answers ++ [b]) := by
  have hrecalls : w.Recalls i r [] := by
    intro e he
    rw [hfresh] at he
    cases he
  let paper (u : Value) := s.matchesM (inquire p r act) u
  have hplain := Machine.inquiring_matches hview hcode
  have hmemoized := Machine.inquiring_matches_replace hview hcode hp' hm
  rcases hpaper : (vs.mapM paper) (view w, []) with ⟨answers, x₁, asked₁⟩
  rcases hlast : paper v (x₁, asked₁) with ⟨b, x₂, asked₂⟩
  have hsnoc : ((vs ++ [v]).mapM paper) (view w, []) = (answers ++ [b], x₂, asked₂) := by
    rw [mapM_snoc, hpaper]
    exact congrArg (fun last => (answers ++ [last.1], last.2)) hlast
  have hclear : Unmistakable r asked₂ := by
    unfold Spec.asked at hunmistakable
    rwa [hsnoc] at hunmistakable
  have hclear₁ : Unmistakable r asked₁ := by
    have hgrown := (hplain v x₁ asked₁).1
    rw [show s.matchesM (inquire p r act) v (x₁, asked₁) = _ from hlast] at hgrown
    exact hclear.sublist hgrown.sublist
  obtain ⟨w₁, ⟨enough₁, hfirst⟩, rfl, hrecalls₁⟩ :=
    Machine.exists_matchAll hmemoized w hrecalls hpaper hclear₁
  obtain ⟨w₂, enough₂, hmemo⟩ := Machine.exists_fits hmemoized w₁ hrecalls₁ hlast hclear
  obtain ⟨w₃, enough₃, hbare⟩ := Machine.exists_fits hplain w₁ hrecalls₁ hlast hclear
  obtain ⟨w₄, ⟨enough₄, hall⟩, -⟩ := Machine.exists_matchAll hplain w hrecalls hsnoc hclear
  refine ⟨answers, b, w₁, max (max enough₁ enough₂) (max enough₃ enough₄), fun depth hdepth => ?_⟩
  refine ⟨hfirst depth (by omega), ?_, ?_, ?_⟩
  · exact congrArg (Option.map Prod.fst) (hmemo depth (by omega))
  · exact congrArg (Option.map Prod.fst) (hbare depth (by omega))
  · exact congrArg (Option.map Prod.fst) (hall depth (by omega))

/-- A list that is asked about twice, after a predicate that always raises, and a cache for one result. -/
theorem memoized_predicate_accepts_alike_shared :
    let p : Callable := ⟨"echo", ["x"], 0⟩
    let p' : Callable := ⟨"echo", ["x"], 1⟩
    let q : Callable := ⟨"fail", ["x"], 2⟩
    let m : Memoizer := ⟨p, .bounded 1 Nat.one_pos⟩
    let code : Code Unit := ⟨#[.program fun args => pure (.ok (args.headD .undefined)), .memoized 0,
      .program fun _ => pure (.error (.custom "no"))], #[m]⟩
    let s : Spec := .anyOf [.predicate q, .predicate p]
    let act : Callable → Value → Unit → Bool × Unit := fun _ _ x => (false, x)
    let l : Value := .list 0 [.null]
    code.Answers s p .ok act (fun _ => ()) 0 ∧ Unmistakable .ok (s.asked p .ok act () [l, .null, l]) ∧
      ∃ answers b w₁ enough, ∀ depth, enough ≤ depth →
        Machine.matchAll (Machine.call code depth) (s.replace p p') [l, .null] (World.start ()) =
          some (answers, w₁) ∧
        (Machine.fits (Machine.call code depth) (s.replace p p') (some l) w₁).map Prod.fst = some b ∧
        (Machine.fits (Machine.call code depth) s (some l) w₁).map Prod.fst = some b ∧
        (Machine.matchAll (Machine.call code depth) s [l, .null, l] (World.start ())).map Prod.fst =
          some (answers ++ [b]) := by
  intro p p' q m code s act l
  have hcode : code.Answers s p .ok act (fun _ => ()) 0 := by
    constructor
    · exact fun v => Machine.settled_call_done rfl rfl fun _ => rfl
    · intro q' hmem hne v w
      have hq : q' = q := by
        rcases List.mem_cons.mp hmem with hq | hp
        · exact hq
        · obtain rfl : q' = p := List.mem_singleton.mp hp
          cases hne
      subst hq
      have hfails : Machine.Settled (fun w => w.cache 0) (fun depth => Machine.call code depth q [v])
          (.error (.custom "no")) := Machine.settled_call_done rfl rfl fun _ => rfl
      obtain ⟨w', hends, hcache⟩ := Machine.settled_deepPasses (fun _ _ => rfl) hfails w
      exact ⟨w', hends, rfl, hcache⟩
  have hunmistakable : Unmistakable .ok (s.asked p .ok act () [l, .null, l]) := by
    have hasked : s.asked p .ok act () [l, .null, l] = [l, .null, l] := rfl
    have hlists : ¬ Confuses .ok l l := not_confuses_of_same rfl rfl rfl
    have hnull : ¬ Confuses .ok l .null := fun h => Bool.noConfusion h.1
    have hlist : ¬ Confuses .ok .null l := fun h => Bool.noConfusion h.1
    rw [hasked]
    simp [Unmistakable, hlists, hnull, hlist]
  have hview : World.Hides (fun _ : World Unit => ()) 0 :=
    ⟨fun _ _ => rfl, fun _ _ => rfl, fun _ _ _ => rfl, fun _ _ _ => rfl⟩
  exact ⟨hcode, hunmistakable, memoized_predicate_accepts_alike code s p p' 0 m.policy rfl rfl .ok act _
    hview hcode [l, .null] l (World.start ()) rfl hunmistakable⟩

/-- The plain predicate accepts two equal lists, one after the other; the memoized one rejects the second,
for which it returns the first. -/
theorem memoized_predicate_rejects_equal_list :
    let p : Callable := ⟨"echo", ["x"], 0⟩
    let p' : Callable := ⟨"echo", ["x"], 1⟩
    let code : Code Unit := ⟨#[.program fun args => pure (.ok (args.headD .undefined)), .memoized 0],
      #[⟨p, .unbounded⟩]⟩
    let s : Spec := .predicate p
    let vs : List Value := [.list 0 [], .list 1 []]
    (∀ v, Machine.Settled (fun w => w.cache 0) (fun depth => Machine.call code depth p [v]) (.ok v)) ∧
      (Machine.matchAll (Machine.call code 3) s vs (World.start ())).map Prod.fst =
        some [true, true] ∧
      (Machine.matchAll (Machine.call code 3) (s.replace p p') vs (World.start ())).map Prod.fst =
        some [true, false] := by
  intro p p' code s vs
  refine ⟨fun v => Machine.settled_call_done rfl rfl fun _ => rfl, ?_, ?_⟩
  · decide +kernel
  · decide +kernel

end RuntimeContracts
