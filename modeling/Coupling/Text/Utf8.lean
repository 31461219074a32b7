/-
Characters as octets.

A character is written as one to four octets. The characters of a range are
those whose octets lie in one of a few sequences of octet ranges, which are
listed in increasing order.
-/
import Coupling.Text.CharSet

namespace Coupling.Text.Utf8

/-- Inclusive bounds of an octet. -/
abbrev Span := Nat × Nat

/-- How many octets a code point takes. -/
def width (n : Nat) : Nat := if n < 0x80 then 1 else if n < 0x800 then 2 else if n < 0x10000 then 3 else 4

/-- How many octets a text takes. -/
def length (cs : List Char) : Nat := cs.foldl (fun n c => n + width c.toNat) 0

/-- The octets of a code point, of which all but the first have six bits. -/
def octets (n : Nat) : List Nat :=
  let tail (shift : Nat) := 0x80 + n >>> shift % 64
  match width n with
  | 1 => [n]
  | 2 => [0xC0 + n >>> 6, tail 0]
  | 3 => [0xE0 + n >>> 12, tail 6, tail 0]
  | _ => [0xF0 + n >>> 18, tail 12, tail 6, tail 0]

/-- The numbers from `lo` to `hi`, each of `k + 1` digits to the base 64, as sequences of digit ranges.
`mark` is added to the first digit, and the mark of later octets to the others. -/
def spans (mark : Nat) : (k : Nat) → (lo hi : Nat) → List (List Span)
  | 0, lo, hi => [[(mark + lo, mark + hi)]]
  | k + 1, lo, hi =>
    let unit := Nat.pow 64 (k + 1)
    let whole (a b : Nat) : List (List Span) :=
      if a < b then [(mark + a, mark + b - 1) :: List.replicate (k + 1) (0x80, 0xBF)] else []
    let part (a lo hi : Nat) : List (List Span) :=
      (spans 0x80 k lo hi).map ((mark + a, mark + a) :: ·)
    let (a, b) := (lo / unit, hi / unit)
    let (low, high) := (lo % unit, hi % unit)
    if a = b ∧ ¬(low = 0 ∧ high = unit - 1) then part a low high
    else
      let first := if low = 0 then a else a + 1
      let last := if high = unit - 1 then b + 1 else b
      (if low = 0 then [] else part a low (unit - 1)) ++ whole first last ++
        (if high = unit - 1 then [] else part b 0 high)

/-- Ranges of code points that take the same number of octets: their ends, the mark of the first octet
and the number of octets after it. -/
def blocks : List (Nat × Nat × Nat × Nat) :=
  [(0, 0x7F, 0, 0), (0x80, 0x7FF, 0xC0, 1), (0x800, 0xD7FF, 0xE0, 2), (0xE000, 0xFFFF, 0xE0, 2),
   (0x10000, 0x10FFFF, 0xF0, 3)]

/-- The sequences of a range of code points. -/
def ofRange (lo hi : Nat) : List (List Span) :=
  blocks.flatMap fun (a, b, mark, k) =>
    if max lo a ≤ min hi b then spans mark k (max lo a) (min hi b) else []

/-- The sequences of a set of characters. -/
def sequences (s : CharSet) : List (List Span) := s.ranges.flatMap fun (lo, hi) => ofRange lo hi

end Coupling.Text.Utf8
