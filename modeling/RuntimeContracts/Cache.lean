import RuntimeContracts.CachePolicy
import RuntimeContracts.Value.Equality

/-!
Caches of results under argument lists, compared by exact equality. A cache has a table of entries and,
for bounded policies, a queue of the keys in the order in which they came. Storing under a key that
is present replaces the value and leaves the queue alone; storing under a new key first makes room.
-/
namespace RuntimeContracts

abbrev Key := List Value

structure Cache where
  entries : List (Key × Value)
  /-- Oldest first. -/
  queue : List Key

/-- What storing a result did. -/
structure Stored where
  cache : Cache
  /-- The keys taken from the queue to make room, oldest first. -/
  evicted : List Key
  /-- Whether the key was new. -/
  isNew : Bool

namespace Cache

def empty : Cache := ⟨[], []⟩

instance : Inhabited Cache := ⟨empty⟩

def size (c : Cache) : Nat := c.entries.length

def lookupIn (key : Key) : List (Key × Value) → Option Value
  | [] => none
  | (k, v) :: rest => if Value.beqItems k key then some v else lookupIn key rest

def lookup (c : Cache) (key : Key) : Option Value := lookupIn key c.entries

/-- The entries with the value under a key replaced; the key itself stays as it was. -/
def replaceIn (key : Key) (v : Value) : List (Key × Value) → List (Key × Value)
  | [] => []
  | (k, w) :: rest =>
    if Value.beqItems k key then (k, v) :: rest else (k, w) :: replaceIn key v rest

def eraseIn (key : Key) : List (Key × Value) → List (Key × Value)
  | [] => []
  | (k, w) :: rest => if Value.beqItems k key then rest else (k, w) :: eraseIn key rest

/-- Take keys from the front of the queue and their entries from the table until fewer than
`capacity` entries are left. If the queue runs out first, all entries go. -/
def makeRoom (capacity : Nat) (entries : List (Key × Value)) : List Key → Stored
  | [] =>
    if entries.length < capacity then ⟨⟨entries, []⟩, [], true⟩ else ⟨⟨[], []⟩, [], true⟩
  | oldest :: queue =>
    if entries.length < capacity then ⟨⟨entries, oldest :: queue⟩, [], true⟩
    else
      let rest := makeRoom capacity (eraseIn oldest entries) queue
      { rest with evicted := oldest :: rest.evicted }

def store (c : Cache) (policy : CachePolicy) (key : Key) (v : Value) : Stored :=
  match c.lookup key with
  | some _ => ⟨{ c with entries := replaceIn key v c.entries }, [], false⟩
  | none =>
    match policy.capacity? with
    | none => ⟨{ c with entries := (key, v) :: c.entries }, [], true⟩
    | some capacity =>
      let room := makeRoom capacity c.entries c.queue
      { room with
        cache := ⟨(key, v) :: room.cache.entries, room.cache.queue ++ [key]⟩ }

end Cache

end RuntimeContracts
