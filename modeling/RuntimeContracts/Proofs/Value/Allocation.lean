import Mathlib.Logic.Relation
import RuntimeContracts.Proofs.Ascending
import RuntimeContracts.Proofs.Value.Shape

/-!
What identities stand for. A class is defined once and an allocation never changes, so there is one class
behind an identity, and one value behind all handles of an allocation. Such a memory exists for all values
that are made one after another, each with an identity of its own and out of values made before.
-/
namespace RuntimeContracts

/-- The class and the value behind every identity. -/
structure Memory where
  classes : Nat → Class
  values : Nat → Value

namespace Memory

def define (memory : Memory) (c : Class) : Memory :=
  { memory with classes := fun id => if id = c.id then c else memory.classes id }

def allocate (memory : Memory) (id : Nat) (v : Value) : Memory :=
  { memory with values := fun i => if i = id then v else memory.values i }

end Memory

namespace Value

/-- The identity of the allocation that strict sameness and the shortcut of exact equality look at. -/
def identity? : Value → Option Nat
  | list id _ => some id
  | record id _ => some id
  | inst _ id _ => some id
  | _ => none

mutual

def parts : Value → List Value
  | undefined => [undefined]
  | null => [null]
  | bool b => [bool b]
  | number n => [number n]
  | string s => [string s]
  | list id items => list id items :: partsOfItems items
  | record id fields => record id fields :: partsOfFields fields
  | inst c id fields => inst c id fields :: partsOfFields fields
  | function f => [function f]

def partsOfItems : List Value → List Value
  | [] => []
  | v :: vs => parts v ++ partsOfItems vs

def partsOfFields : List (String × Value) → List Value
  | [] => []
  | (_, v) :: es => parts v ++ partsOfFields es

end

/-- The classes of the value are the ones of the memory, and so is every allocation in it. -/
structure LivesIn (memory : Memory) (v : Value) : Prop where
  declared : v.Declared memory.classes
  allocated : ∀ u ∈ v.parts, ∀ id, u.identity? = some id → memory.values id = u

section Parts

theorem self_mem_parts (v : Value) : v ∈ v.parts := by
  cases v <;> exact List.mem_cons_self ..

theorem mem_partsOfItems_iff {vs : List Value} {u : Value} :
    u ∈ partsOfItems vs ↔ ∃ v ∈ vs, u ∈ v.parts := by
  induction vs with
  | nil => simp [partsOfItems]
  | cons v vs ih => simp [partsOfItems, ih]

theorem mem_partsOfFields_iff {es : List (String × Value)} {u : Value} :
    u ∈ partsOfFields es ↔ ∃ e ∈ es, u ∈ e.2.parts := by
  induction es with
  | nil => simp [partsOfFields]
  | cons e es ih => simp [partsOfFields, ih]

theorem parts_of_identity?_eq_none {v : Value} (h : v.identity? = none) : v.parts = [v] := by
  cases v <;> simp [identity?, parts] at h ⊢

theorem classes_of_identity?_eq_none {v : Value} (h : v.identity? = none) : v.classes = [] := by
  cases v <;> simp [identity?, classes] at h ⊢

end Parts

structure Within (u v : Value) : Prop where
  parts : u.parts ⊆ v.parts
  classes : u.classes ⊆ v.classes

theorem within_of_items? {v : Value} {items : List Value} (hitems : v.items? = some items) {u : Value}
    (hu : u ∈ items) : u.Within v := by
  cases v with
  | list id xs =>
    obtain rfl : xs = items := Option.some.inj hitems
    exact ⟨fun w hw => List.mem_cons_of_mem _ (mem_partsOfItems_iff.mpr ⟨u, hu, hw⟩),
      fun c hc => mem_classesOfItems_iff.mpr ⟨u, hu, hc⟩⟩
  | _ => cases hitems

theorem within_of_fields? {v : Value} {fields : List (String × Value)} (hfields : v.fields? = some fields)
    {e : String × Value} (he : e ∈ fields) : e.2.Within v := by
  cases v with
  | record id es =>
    obtain rfl : es = fields := Option.some.inj hfields
    exact ⟨fun w hw => List.mem_cons_of_mem _ (mem_partsOfFields_iff.mpr ⟨e, he, hw⟩),
      fun c hc => mem_classesOfFields_iff.mpr ⟨e, he, hc⟩⟩
  | inst cls id es =>
    obtain rfl : es = fields := Option.some.inj hfields
    exact ⟨fun w hw => List.mem_cons_of_mem _ (mem_partsOfFields_iff.mpr ⟨e, he, hw⟩),
      fun c hc => List.mem_cons_of_mem _ (mem_classesOfFields_iff.mpr ⟨e, he, hc⟩)⟩
  | _ => cases hfields

namespace LivesIn

variable {memory : Memory} {u v : Value}

theorem within (h : v.LivesIn memory) (hu : u.Within v) : u.LivesIn memory :=
  ⟨fun c hc => h.declared c (hu.classes hc), fun w hw => h.allocated w (hu.parts hw)⟩

theorem item (h : v.LivesIn memory) {items : List Value} (hitems : v.items? = some items)
    (hu : u ∈ items) : u.LivesIn memory :=
  h.within (within_of_items? hitems hu)

theorem field (h : v.LivesIn memory) {fields : List (String × Value)} (hfields : v.fields? = some fields)
    {e : String × Value} (he : e ∈ fields) : e.2.LivesIn memory :=
  h.within (within_of_fields? hfields he)

/-- Two handles of one allocation are handles of one value. -/
theorem eq_of_identity? (hu : u.LivesIn memory) (hv : v.LivesIn memory) {id : Nat}
    (hid : u.identity? = some id) (hid' : v.identity? = some id) : u = v :=
  (hu.allocated u (self_mem_parts u) id hid).symm.trans (hv.allocated v (self_mem_parts v) id hid')

theorem of_identity?_eq_none (h : v.identity? = none) : v.LivesIn memory where
  declared := by
    intro c hc
    rw [classes_of_identity?_eq_none h] at hc
    cases hc
  allocated := by
    intro u hu id hid
    rw [parts_of_identity?_eq_none h, List.mem_singleton] at hu
    rw [hu, h] at hid
    cases hid

end LivesIn

structure Below (next : Nat) (v : Value) : Prop where
  classes : ∀ c ∈ v.classes, c.id < next
  allocations : ∀ u ∈ v.parts, ∀ id, u.identity? = some id → id < next

end Value

open Value

structure Stock where
  next : Nat
  classes : List Class
  values : List Value

namespace Stock

def empty : Stock := ⟨0, [], []⟩

def define (s : Stock) (c : Class) : Stock := ⟨s.next + 1, c :: s.classes, s.values⟩

def allocate (s : Stock) (v : Value) : Stock := ⟨s.next + 1, s.classes, v :: s.values⟩

def keep (s : Stock) (v : Value) : Stock := { s with values := v :: s.values }

inductive Step (s : Stock) : Stock → Prop
  | root (name : String) : Step s (s.define (.root s.next name))
  | extending (name : String) (parent : Class) (hparent : parent ∈ s.classes) :
    Step s (s.define (.extending s.next name parent))
  | plain (v : Value) (hplain : v.identity? = none) : Step s (s.keep v)
  | list (items : List Value) (hitems : ∀ v ∈ items, v ∈ s.values) :
    Step s (s.allocate (.list s.next items))
  | record (entries : List (String × Value)) (hentries : ∀ e ∈ entries, e.2 ∈ s.values) :
    Step s (s.allocate (.ofEntries s.next entries))
  | inst (cls : Class) (hcls : cls ∈ s.classes) (entries : List (String × Value))
    (hentries : ∀ e ∈ entries, e.2 ∈ s.values) : Step s (s.allocate (.instantiate cls s.next entries))
  | item (v : Value) (hv : v ∈ s.values) (items : List Value) (hitems : v.items? = some items) (u : Value)
    (hu : u ∈ items) : Step s (s.keep u)
  | field (v : Value) (hv : v ∈ s.values) (fields : List (String × Value))
    (hfields : v.fields? = some fields) (e : String × Value) (he : e ∈ fields) : Step s (s.keep e.2)

structure Fits (s : Stock) (memory : Memory) : Prop where
  classes : ∀ c ∈ s.classes, memory.classes c.id = c ∧ c.id < s.next
  values : ∀ v ∈ s.values, v.LivesIn memory ∧ v.Below s.next

end Stock

namespace Value

variable {memory : Memory} {next : Nat} {v : Value}

theorem Below.mono (h : v.Below next) {next' : Nat} (hle : next ≤ next') : v.Below next' :=
  ⟨fun c hc => Nat.lt_of_lt_of_le (h.classes c hc) hle,
    fun u hu id hid => Nat.lt_of_lt_of_le (h.allocations u hu id hid) hle⟩

theorem Below.within (h : v.Below next) {u : Value} (hu : u.Within v) : u.Below next :=
  ⟨fun c hc => h.classes c (hu.classes hc), fun w hw => h.allocations w (hu.parts hw)⟩

theorem below_of_identity?_eq_none (h : v.identity? = none) : v.Below next where
  classes := by
    intro c hc
    rw [classes_of_identity?_eq_none h] at hc
    cases hc
  allocations := by
    intro u hu id hid
    rw [parts_of_identity?_eq_none h, List.mem_singleton] at hu
    rw [hu, h] at hid
    cases hid

/-- A new class is none of those in the values made before. -/
theorem LivesIn.define (h : v.LivesIn memory) (hbelow : v.Below next) {c : Class} (hc : c.id = next) :
    v.LivesIn (memory.define c) where
  declared d hd := by
    have hne : d.id ≠ c.id := by
      have hlt := hbelow.classes d hd
      omega
    simp only [Memory.define, if_neg hne]
    exact h.declared d hd
  allocated := h.allocated

/-- A new allocation is none of those in the values made before. -/
theorem LivesIn.allocate (h : v.LivesIn memory) (hbelow : v.Below next) (new : Value) :
    v.LivesIn (memory.allocate next new) where
  declared := h.declared
  allocated u hu id hid := by
    have hne : id ≠ next := Nat.ne_of_lt (hbelow.allocations u hu id hid)
    simp only [Memory.allocate, if_neg hne]
    exact h.allocated u hu id hid

end Value

namespace Stock

variable {s : Stock} {memory : Memory}

theorem fits_empty : empty.Fits memory where
  classes := by
    intro c hc
    cases hc
  values := by
    intro v hv
    cases hv

theorem Fits.define (h : s.Fits memory) {c : Class} (hc : c.id = s.next) :
    (s.define c).Fits (memory.define c) where
  classes d hd := by
    rcases List.mem_cons.mp hd with rfl | hd
    · exact ⟨if_pos rfl, hc ▸ Nat.lt_succ_self _⟩
    · obtain ⟨hbehind, hlt⟩ := h.classes d hd
      refine ⟨?_, Nat.lt_succ_of_lt hlt⟩
      simp only [Memory.define, if_neg (show d.id ≠ c.id by omega)]
      exact hbehind
  values v hv := by
    obtain ⟨hlives, hbelow⟩ := h.values v hv
    exact ⟨hlives.define hbelow hc, hbelow.mono (Nat.le_succ _)⟩

theorem Fits.keep (h : s.Fits memory) {v : Value} (hlives : v.LivesIn memory) (hbelow : v.Below s.next) :
    (s.keep v).Fits memory where
  classes := h.classes
  values u hu := by
    rcases List.mem_cons.mp hu with rfl | hu
    · exact ⟨hlives, hbelow⟩
    · exact h.values u hu

/-- A value of the next identity, made out of a class and of values in the stock. -/
theorem Fits.allocate (h : s.Fits memory) {v : Value} (hid : v.identity? = some s.next)
    (hparts : ∀ u ∈ v.parts, u = v ∨ ∃ w ∈ s.values, u ∈ w.parts)
    (hclasses : ∀ c ∈ v.classes, c ∈ s.classes ∨ ∃ w ∈ s.values, c ∈ w.classes) :
    (s.allocate v).Fits (memory.allocate s.next v) where
  classes c hc := by
    obtain ⟨hbehind, hlt⟩ := h.classes c hc
    exact ⟨hbehind, Nat.lt_succ_of_lt hlt⟩
  values w hw := by
    rcases List.mem_cons.mp hw with rfl | hw
    · have hnew : ∀ u ∈ w.parts, ∀ id, u.identity? = some id →
          (memory.allocate s.next w).values id = u ∧ id < s.next + 1 := by
        intro u hu id hu'
        rcases hparts u hu with rfl | ⟨x, hx, hux⟩
        · obtain rfl : s.next = id := Option.some.inj (hid.symm.trans hu')
          exact ⟨if_pos rfl, Nat.lt_succ_self _⟩
        · obtain ⟨hlives, hbelow⟩ := h.values x hx
          exact ⟨(hlives.allocate hbelow w).allocated u hux id hu',
            Nat.lt_succ_of_lt (hbelow.allocations u hux id hu')⟩
      have hdeclared : ∀ c ∈ w.classes, memory.classes c.id = c ∧ c.id < s.next + 1 := by
        intro c hc
        rcases hclasses c hc with hc | ⟨x, hx, hcx⟩
        · obtain ⟨hbehind, hlt⟩ := h.classes c hc
          exact ⟨hbehind, Nat.lt_succ_of_lt hlt⟩
        · obtain ⟨hlives, hbelow⟩ := h.values x hx
          exact ⟨hlives.declared c hcx, Nat.lt_succ_of_lt (hbelow.classes c hcx)⟩
      exact ⟨⟨fun c hc => (hdeclared c hc).1, fun u hu id hu' => (hnew u hu id hu').1⟩,
        ⟨fun c hc => (hdeclared c hc).2, fun u hu id hu' => (hnew u hu id hu').2⟩⟩
    · obtain ⟨hlives, hbelow⟩ := h.values w hw
      exact ⟨hlives.allocate hbelow v, hbelow.mono (Nat.le_succ _)⟩

/-- A composite whose fields are some of the entries, with values in the stock. -/
theorem Fits.allocateFields (h : s.Fits memory) {v : Value} (hid : v.identity? = some s.next)
    {entries : List (String × Value)} (hentries : ∀ e ∈ entries, e.2 ∈ s.values)
    (hparts : v.parts = v :: partsOfFields (Ascending.ofEntries entries))
    (hclasses : ∀ c ∈ v.classes, c ∈ s.classes ∨ c ∈ classesOfFields (Ascending.ofEntries entries)) :
    (s.allocate v).Fits (memory.allocate s.next v) := by
  refine h.allocate hid (fun u hu => ?_) fun c hc => ?_
  · rw [hparts, List.mem_cons, mem_partsOfFields_iff] at hu
    refine hu.imp_right ?_
    rintro ⟨e, he, hue⟩
    exact ⟨e.2, hentries e (Ascending.mem_of_mem_ofEntries entries he), hue⟩
  · refine (hclasses c hc).imp_right fun hc => ?_
    obtain ⟨e, he, hce⟩ := mem_classesOfFields_iff.mp hc
    exact ⟨e.2, hentries e (Ascending.mem_of_mem_ofEntries entries he), hce⟩

theorem Fits.step (h : s.Fits memory) {t : Stock} (hstep : s.Step t) : ∃ memory', t.Fits memory' := by
  cases hstep with
  | root name => exact ⟨_, h.define rfl⟩
  | extending name parent hparent => exact ⟨_, h.define rfl⟩
  | plain v hplain =>
    exact ⟨memory, h.keep (.of_identity?_eq_none hplain) (below_of_identity?_eq_none hplain)⟩
  | list items hitems =>
    refine ⟨_, h.allocate rfl (fun u hu => ?_) fun c hc => Or.inr ?_⟩
    · refine (List.mem_cons.mp hu).imp_right fun hu => ?_
      obtain ⟨w, hw, huw⟩ := mem_partsOfItems_iff.mp hu
      exact ⟨w, hitems w hw, huw⟩
    · obtain ⟨w, hw, hcw⟩ := mem_classesOfItems_iff.mp hc
      exact ⟨w, hitems w hw, hcw⟩
  | record entries hentries => exact ⟨_, h.allocateFields rfl hentries rfl fun c hc => Or.inr hc⟩
  | inst cls hcls entries hentries =>
    refine ⟨_, h.allocateFields rfl hentries rfl fun c hc => ?_⟩
    rcases List.mem_cons.mp hc with rfl | hc
    · exact Or.inl hcls
    · exact Or.inr hc
  | item v hv items hitems u hu =>
    obtain ⟨hlives, hbelow⟩ := h.values v hv
    have hwithin := within_of_items? hitems hu
    exact ⟨memory, h.keep (hlives.within hwithin) (hbelow.within hwithin)⟩
  | field v hv fields hfields e he =>
    obtain ⟨hlives, hbelow⟩ := h.values v hv
    have hwithin := within_of_fields? hfields he
    exact ⟨memory, h.keep (hlives.within hwithin) (hbelow.within hwithin)⟩

theorem exists_fits (h : Relation.ReflTransGen Step empty s) : ∃ memory, s.Fits memory := by
  induction h with
  | refl => exact ⟨⟨fun _ => .root 0 "", fun _ => .undefined⟩, fits_empty⟩
  | tail _ hstep ih =>
    obtain ⟨memory, hs⟩ := ih
    exact hs.step hstep

/-- The values that are made one after another all live in one memory. -/
theorem exists_livesIn (h : Relation.ReflTransGen Step empty s) :
    ∃ memory, ∀ v ∈ s.values, v.LivesIn memory := by
  obtain ⟨memory, hs⟩ := exists_fits h
  exact ⟨memory, fun v hv => (hs.values v hv).1⟩

end Stock

end RuntimeContracts
