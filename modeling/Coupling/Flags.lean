/-
Words of named bits.

`Flags table` is a 32-bit word whose bits are named by `table`, a list in the
order names are listed. A word may hold bits that have no name.
-/

namespace Coupling

structure Flags (table : List (String × UInt32)) where
  bits : UInt32
  deriving DecidableEq, Inhabited

namespace Flags

variable {table : List (String × UInt32)}

def none : Flags table := ⟨0⟩

/-- All named bits. -/
def all : Flags table := ⟨table.foldl (fun bits f => bits ||| f.2) 0⟩

def union (a b : Flags table) : Flags table := ⟨a.bits ||| b.bits⟩

instance : OrOp (Flags table) := ⟨union⟩

/-- Whether every bit of `b` is in `a`. -/
def contains (a b : Flags table) : Bool := a.bits &&& b.bits == b.bits

def isEmpty (a : Flags table) : Bool := a.bits == 0

/-- The named bits of a word. -/
def truncate (a : Flags table) : Flags table := ⟨a.bits &&& (all : Flags table).bits⟩

/-- Whether a word holds named bits only. -/
def isValid (a : Flags table) : Bool := a.truncate == a

/-- The names of a word's bits. -/
def names (a : Flags table) : List String :=
  (table.filter fun f => a.contains ⟨f.2⟩).map (·.1)

end Flags

end Coupling
