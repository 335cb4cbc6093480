import Mathlib.Data.List.Find
import Mathlib.Data.List.Forall2
import RuntimeContracts.Proofs.Cache.Refinement
import RuntimeContracts.Proofs.Value.Sharing
import RuntimeContracts.Proofs.Value.Writes

/-!
Hashing and exact equality tell the same values and the same keys apart. Hence a table of keys that is
searched under the hash of an argument list finds what a search of all its keys would find.
-/
namespace RuntimeContracts.Value

section Keys

variable {memory : Memory}

def writesOfSlice (args : List Value) : List HashWrite := .length args.length :: args.flatMap writes

theorem writesOfArgs_eq (args : List Value) : writesOfArgs args = writesOfSlice args := by
  rw [writesOfArgs, writesOfSlice, feedItems_eq_append, List.append_nil]

/-- An argument list is written as a list is, but for the variant. -/
theorem beqItems_iff_writes_eq {xs ys : List Value} :
    beqItems xs ys = true ↔ writesOfArgs xs = writesOfArgs ys := by
  have hlist : beq (list 0 xs) (list 0 ys) = true ↔ (list 0 xs).writes = (list 0 ys).writes :=
    beq_iff_writes_eq
  exact hlist.trans (List.cons_inj_right _)

theorem beqSharedItems_iff {xs ys : List Value} :
    beqSharedItems xs ys = true ↔ List.Forall₂ (fun x y => beqShared x y = true) xs ys := by
  induction xs generalizing ys with
  | nil => cases ys <;> simp [beqSharedItems]
  | cons x xs ih => cases ys <;> simp [beqSharedItems, ih]

def bucket (hash : List HashWrite → UInt64) (code : UInt64) (entries : List (Key × Value)) :
    List (Key × Value) :=
  entries.filter fun e => hash (writesOfArgs e.1) == code

def probe (hash : List HashWrite → UInt64) (args : List Value) (entries : List (Key × Value)) :
    Option Value :=
  ((bucket hash (hash (writesOfSlice args)) entries).find? fun e => beqSharedItems e.1 args).map Prod.snd

/-- Keys that are equal to the slice are in its bucket, so that no other bucket has to be looked into. -/
theorem probe_eq_lookupIn (hash : List HashWrite → UInt64) {args : List Value}
    {entries : List (Key × Value)} (hargs : ∀ v ∈ args, v.LivesIn memory)
    (hkeys : ∀ e ∈ entries, ∀ v ∈ e.1, v.LivesIn memory) :
    probe hash args entries = Cache.lookupIn args entries := by
  rw [probe, bucket, List.find?_filter, Cache.lookupIn_eq, Queue.lookup]
  refine congrArg _ (List.find?_congr fun e he => ?_)
  have hshared : beqSharedItems e.1 args = beqItems e.1 args := beqSharedItems_eq (hkeys e he) hargs
  rw [hshared]
  cases hequal : beqItems e.1 args with
  | false => simp
  | true => simp [beqItems_iff_writes_eq.mp hequal, writesOfArgs_eq]

theorem isSome_probe_iff (hash : List HashWrite → UInt64) {args : List Value}
    {entries : List (Key × Value)} (hargs : ∀ v ∈ args, v.LivesIn memory)
    (hkeys : ∀ e ∈ entries, ∀ v ∈ e.1, v.LivesIn memory) :
    (probe hash args entries).isSome = true ↔
      ∃ e ∈ entries, List.Forall₂ (fun x y => beqShared x y = true) e.1 args := by
  rw [probe_eq_lookupIn hash hargs hkeys, Cache.lookupIn_eq, Queue.lookup, Option.isSome_map,
    List.find?_isSome]
  refine exists_congr fun e => and_congr_right fun he => ?_
  rw [← beqSharedItems_eq (hkeys e he) hargs, beqSharedItems_iff]

/-- Two values are equal where their writes are. The writes of no value begin those of an unequal one, not
even as plain numbers. -/
structure HashedAlike (a b : Value) : Prop where
  writes : beqShared a b = true ↔ a.writes = b.writes
  unmixed : a.writes <+: b.writes → a.writes = b.writes
  plain : stream a.writes <+: stream b.writes → beqShared a b = true

theorem hashedAlike {a b : Value} (ha : a.LivesIn memory) (hb : b.LivesIn memory) : HashedAlike a b where
  writes := by rw [beqShared_eq ha hb, beq_iff_writes_eq]
  unmixed h := writes_eq_of_beq (beq_of_isPrefix_stream (stream_isPrefix h))
  plain h := by
    rw [beqShared_eq ha hb]
    exact beq_of_isPrefix_stream h

structure KeyedAlike (hash : List HashWrite → UInt64) (xs ys : List Value) : Prop where
  elementwise : beqSharedItems xs ys = true ↔ List.Forall₂ (fun x y => beqShared x y = true) xs ys
  writes : beqSharedItems xs ys = true ↔ writesOfArgs xs = writesOfArgs ys
  slice : writesOfArgs ys = writesOfSlice ys
  hash : beqSharedItems xs ys = true → hash (writesOfArgs xs) = hash (writesOfSlice ys)

theorem keyedAlike (hash : List HashWrite → UInt64) {xs ys : List Value}
    (hxs : ∀ v ∈ xs, v.LivesIn memory) (hys : ∀ v ∈ ys, v.LivesIn memory) : KeyedAlike hash xs ys := by
  have hwrites : beqSharedItems xs ys = true ↔ writesOfArgs xs = writesOfArgs ys := by
    rw [beqSharedItems_eq hxs hys, beqItems_iff_writes_eq]
  refine ⟨beqSharedItems_iff, hwrites, writesOfArgs_eq ys, fun h => ?_⟩
  rw [hwrites.mp h, writesOfArgs_eq]

/-- Looking into one bucket answers what a search of the whole table does, and something is found where a
key is stored that is equal to the slice element by element. -/
structure FoundByHash (hash : List HashWrite → UInt64) (args : List Value) (entries : List (Key × Value)) :
    Prop where
  answer : probe hash args entries = Cache.lookupIn args entries
  found : (probe hash args entries).isSome = true ↔
    ∃ e ∈ entries, List.Forall₂ (fun x y => beqShared x y = true) e.1 args

end Keys

theorem hashing_agrees_with_equality (hash : List HashWrite → UInt64) (memory : Memory) {a b : Value}
    (ha : a.LivesIn memory) (hb : b.LivesIn memory) {xs ys : List Value}
    (hxs : ∀ v ∈ xs, v.LivesIn memory) (hys : ∀ v ∈ ys, v.LivesIn memory) {entries : List (Key × Value)}
    (hentries : ∀ e ∈ entries, ∀ v ∈ e.1, v.LivesIn memory) :
    HashedAlike a b ∧ KeyedAlike hash xs ys ∧ FoundByHash hash ys entries :=
  ⟨hashedAlike ha hb, keyedAlike hash hxs hys, probe_eq_lookupIn hash hys hentries,
    isSome_probe_iff hash hys hentries⟩

/-- Instances with a NaN in lists of their own, one in a key and the other in the slice that looks for it. -/
theorem hashing_agrees_with_equality_nan :
    let nan := float ⟨0x7ff8000000000000⟩
    let dog := Class.root 0 "Dog"
    let x := list 1 [nan]
    let y := list 2 [nan]
    let a := instantiate dog 3 [("tail", x)]
    let b := instantiate dog 4 [("tail", y)]
    let hash := fun ws : List HashWrite => UInt64.ofNat ws.length
    (∃ memory, ∀ v ∈ [a, b, x], v.LivesIn memory) ∧
      (HashedAlike a b ∧ KeyedAlike hash [a, x] [b, x] ∧ FoundByHash hash [b, x] [([a, x], null)]) ∧
      beqShared a b = true ∧ (probe hash [b, x] [([a, x], null)]).isSome = true := by
  intro nan dog x y a b hash
  have hmade : Relation.ReflTransGen Stock.Step .empty ⟨5, [dog], [b, a, y, x, nan]⟩ := by
    refine Relation.ReflTransGen.tail (.tail (.tail (.tail (.tail (.single (.root "Dog"))
      (.plain nan rfl)) (.list [nan] ?_)) (.list [nan] ?_)) (.inst dog ?_ [("tail", x)] ?_))
      (.inst dog ?_ [("tail", y)] ?_)
    all_goals simp [Stock.empty, Stock.define, Stock.keep, Stock.allocate, dog, x, y]
  obtain ⟨memory, hlives⟩ := Stock.exists_livesIn hmade
  have ha : a.LivesIn memory := hlives a (by simp)
  have hb : b.LivesIn memory := hlives b (by simp)
  have hx : x.LivesIn memory := hlives x (by simp)
  refine ⟨⟨memory, by simp [ha, hb, hx]⟩, hashing_agrees_with_equality hash memory ha hb ?_ ?_ ?_,
    by decide +kernel, by decide +kernel⟩
  all_goals simp [ha, hb, hx]

end RuntimeContracts.Value
