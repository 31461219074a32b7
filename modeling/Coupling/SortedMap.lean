/-
Finite maps listed in key order.

A `SortedMap` is its entries, keys strictly increasing. Looking through the
entries is the order every listing shows, so two maps with the same entries
are the same map. `insert` replaces the value of a key that is there,
`insertNew` leaves it.
-/

namespace Coupling

structure SortedMap (κ α : Type) where
  entries : List (κ × α)

namespace SortedMap

variable {κ α β : Type}

def empty : SortedMap κ α := ⟨[]⟩

instance : EmptyCollection (SortedMap κ α) := ⟨empty⟩

instance : Inhabited (SortedMap κ α) := ⟨empty⟩

def keys (m : SortedMap κ α) : List κ := m.entries.map (·.1)

def values (m : SortedMap κ α) : List α := m.entries.map (·.2)

def size (m : SortedMap κ α) : Nat := m.entries.length

def isEmpty (m : SortedMap κ α) : Bool := m.entries.isEmpty

def map (f : α → β) (m : SortedMap κ α) : SortedMap κ β := ⟨m.entries.map fun (k, a) => (k, f a)⟩

def filter (p : κ → α → Bool) (m : SortedMap κ α) : SortedMap κ α :=
  ⟨m.entries.filter fun (k, a) => p k a⟩

variable [Ord κ]

/-- The value of `k` among entries. -/
def lookup (k : κ) : List (κ × α) → Option α
  | [] => none
  | (k', a) :: es => if compare k k' = .eq then some a else lookup k es

def get? (m : SortedMap κ α) (k : κ) : Option α := lookup k m.entries

def contains (m : SortedMap κ α) (k : κ) : Bool := (m.get? k).isSome

/-- Puts `k` at its place; what becomes of a value that is there already is said by `f`. -/
def place (k : κ) (f : Option α → α) : List (κ × α) → List (κ × α)
  | [] => [(k, f none)]
  | (k', a) :: es =>
    match compare k k' with
    | .lt => (k, f none) :: (k', a) :: es
    | .eq => (k', f (some a)) :: es
    | .gt => (k', a) :: place k f es

/-- Sets the value of `k` to `f` of the value that is there. -/
def alter (m : SortedMap κ α) (k : κ) (f : Option α → α) : SortedMap κ α := ⟨place k f m.entries⟩

/-- Sets the value of `k`. -/
def insert (m : SortedMap κ α) (k : κ) (a : α) : SortedMap κ α := m.alter k fun _ => a

/-- Sets the value of `k` unless it has one. -/
def insertNew (m : SortedMap κ α) (k : κ) (a : α) : SortedMap κ α := m.alter k (·.getD a)

def erase (m : SortedMap κ α) (k : κ) : SortedMap κ α := m.filter fun k' _ => compare k k' != .eq

/-- The map of a list of entries; the last value of a key is the one kept. -/
def ofList (es : List (κ × α)) : SortedMap κ α := es.foldl (fun m (k, a) => m.insert k a) empty

end SortedMap

end Coupling
