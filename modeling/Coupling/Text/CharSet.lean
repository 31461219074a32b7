/-
Sets of characters as ranges of code points.

The ranges of a `CharSet` are in increasing order with a gap between any two,
so a set of characters has one form. Tables of character properties are
written as texts, `41-5a 61-7a aa 100-12e/2`, which `ofText` reads.
-/
import Coupling.Text.Cut

namespace Coupling

/-- Inclusive ranges of code points. -/
structure CharSet where
  ranges : List (Nat × Nat)
  deriving DecidableEq, Inhabited

namespace CharSet

def empty : CharSet := ⟨[]⟩

/-- Every character: all code points but the surrogates. -/
def all : CharSet := ⟨[(0, 0xD7FF), (0xE000, 0x10FFFF)]⟩

def isEmpty (s : CharSet) : Bool := s.ranges.isEmpty

/-- Membership among increasing ranges. -/
def inRanges (n : Nat) : List (Nat × Nat) → Bool
  | [] => false
  | (lo, hi) :: rs => if n < lo then false else n ≤ hi || inRanges n rs

def contains (s : CharSet) (c : Char) : Bool := inRanges c.toNat s.ranges

/-- Joins ranges that overlap or touch, given in increasing order of their starts; `lo` and `hi`
is the range being grown. -/
def mergeFrom (lo hi : Nat) : List (Nat × Nat) → List (Nat × Nat)
  | [] => [(lo, hi)]
  | (a, b) :: rs =>
    if a ≤ hi + 1 then mergeFrom lo (max hi b) rs else (lo, hi) :: mergeFrom a b rs

/-- The set of the given ranges, in any order; a range that ends before its start is dropped. -/
def ofRanges (rs : List (Nat × Nat)) : CharSet :=
  match (rs.filter fun (a, b) => a ≤ b).mergeSort fun x y => x.1 ≤ y.1 with
  | [] => empty
  | (a, b) :: rs => ⟨mergeFrom a b rs⟩

def singleton (c : Char) : CharSet := ⟨[(c.toNat, c.toNat)]⟩

/-- The characters from `a` to `b`, surrogate code points left out. -/
def range (a b : Nat) : CharSet := ofRanges [(a, min b 0xD7FF), (max a 0xE000, b)]

def union (s t : CharSet) : CharSet := ofRanges (s.ranges ++ t.ranges)

/-- The parts of the ranges `rs` that lie in `lo..hi`. -/
def clip (lo hi : Nat) (rs : List (Nat × Nat)) : List (Nat × Nat) :=
  rs.filterMap fun (a, b) => if max lo a ≤ min hi b then some (max lo a, min hi b) else none

def inter (s t : CharSet) : CharSet :=
  ofRanges (s.ranges.flatMap fun (a, b) => clip a b t.ranges)

/-- The gaps between increasing ranges, from `n` on. -/
def gaps (n : Nat) : List (Nat × Nat) → List (Nat × Nat)
  | [] => [(n, 0x10FFFF)]
  | (a, b) :: rs => if n < a then (n, a - 1) :: gaps (b + 1) rs else gaps (b + 1) rs

/-- The characters that are not in the set. -/
def compl (s : CharSet) : CharSet := all.inter (ofRanges (gaps 0 s.ranges))

def diff (s t : CharSet) : CharSet := s.inter t.compl

def symmDiff (s t : CharSet) : CharSet := (s.diff t).union (t.diff s)

/-! ## Tables -/

/-- The value of hexadecimal digits. -/
def ofHex (ds : List Char) : Nat :=
  ds.foldl (fun n c => 16 * n + (if c.isDigit then c.toNat - 48 else c.toNat - 87)) 0

/-- A range given by its first and last code point in hexadecimal, which are written once if they
are equal. `/n` after it leaves only every `n`th code point. -/
def entryRanges (entry : List Char) : List (Nat × Nat) :=
  match Text.cutFirst '/' entry with
  | none =>
    let (a, b) := (Text.cutFirst '-' entry).getD (entry, entry)
    [(ofHex a, ofHex b)]
  | some (range, step) =>
    let (a, b) := (Text.cutFirst '-' range).getD (range, range)
    (List.range ((ofHex b - ofHex a) / ofHex step + 1)).map fun i =>
      (ofHex a + i * ofHex step, ofHex a + i * ofHex step)

/-- The set of the entries of a table, which are separated by blanks or line ends. -/
def ofText (s : String) : CharSet :=
  let entries := (Text.splitOn '\n' s.toList).flatMap (Text.splitOn ' ')
  ⟨(entries.filter (!·.isEmpty)).flatMap entryRanges⟩

end CharSet

end Coupling
