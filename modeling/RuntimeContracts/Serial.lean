import RuntimeContracts.CachePolicy
import RuntimeContracts.Mode

/-!
Serial forms of the two policies. A mode is its name; an unbounded cache is the name of that policy,
and a bounded one a record of its capacity, which must be a whole number of at most sixty-four bits
and not zero. Reading accepts what writing produces, and besides a name its record form, in which the
name stands for null, and a capacity with other fields around it, which are passed over.
-/
namespace RuntimeContracts.Serial

/-- What a self-describing format offers, as far as it matters here. The fields of a record have
different names. -/
inductive Datum where
  | null
  | text (s : String)
  | integer (n : Int)
  | record (fields : List (String × Datum))
  /-- Anything else: Booleans, fractions and lists. -/
  | other

instance : Inhabited Datum := ⟨.null⟩

/-- The name of a variant without content: the name itself, or a record of it and null. -/
def variant? : Datum → Option String
  | .text s => some s
  | .record [(name, .null)] => some name
  | _ => none

def ofMode (m : Mode) : Datum := .text m.name

def mode? (d : Datum) : Option Mode := (variant? d).bind Mode.ofName?

def ofPolicy : CachePolicy → Datum
  | .unbounded => .text "unbounded"
  | .bounded capacity _ => .record [("bounded", .record [("capacity", .integer capacity)])]

/-- The bound that a capacity of sixty-four bits stays below. -/
def capacityLimit : Nat := UInt64.size

def capacity? (n : Int) : Option CachePolicy :=
  if h : 0 < n.toNat ∧ n.toNat < capacityLimit then some (.bounded n.toNat h.1) else none

/-- The bounded policy that a record describes by its capacity. -/
def bounded? (fields : List (String × Datum)) : Option CachePolicy :=
  match fields.lookup "capacity" with
  | some (.integer n) => capacity? n
  | _ => none

def policy? (d : Datum) : Option CachePolicy :=
  match d with
  | .record [(name, .record fields)] => if name = "bounded" then bounded? fields else none
  | d => if variant? d = some "unbounded" then some .unbounded else none

end RuntimeContracts.Serial
