/-
Numbers as they are spelled, and the numbers they stand for.

A `Numeral` keeps the digits of a JSON number. A whole one that fits 64 bits,
signed below zero, is an integer. Any other is a double, found in two steps:
as many leading digits as fit 64 bits are taken as a significand, rounded, and
then multiplied or divided by a power of ten, rounded again. `ofText?` reads
a decimal with a single rounding.
-/
import Coupling.Number.Binary64

namespace Coupling

inductive Number where
  | integer (i : Int)
  | real (x : Binary64)
  deriving DecidableEq, Inhabited

/-- The parts of a spelled number; digits are 0 to 9. -/
structure Numeral where
  negative : Bool
  whole : List Nat
  /-- The digits after the point, if there is one. -/
  fraction : Option (List Nat)
  /-- Whether the exponent is below zero, and its digits, if there is one. -/
  exponent : Option (Bool × List Nat)
  deriving DecidableEq

namespace Numeral

def ofDigits (ds : List Nat) : Nat := ds.foldl (fun n d => 10 * n + d) 0

/-- The largest significand. -/
def significandMax : Nat := 0xFFFFFFFFFFFFFFFF

/-- Appends digits to a significand while it fits, and gives the digits left over. -/
def append (n : Nat) : List Nat → Nat × List Nat
  | [] => (n, [])
  | d :: ds => if 10 * n + d ≤ significandMax then append (10 * n + d) ds else (n, d :: ds)

/-- The largest power of ten that is a double. -/
def largestTen : Nat := 308

/-- Divides by `10 ^ largestTen` up to `n` times, until nothing is left. -/
def divideDown (x : Binary64) : Nat → Binary64
  | 0 => x
  | n + 1 => if x.isZero then x else divideDown (x.div (Binary64.tenPow largestTen)) n

/-- The significand `n` times `10 ^ e`; nothing if that is too large for a double. -/
def scale (n : Nat) (e : Int) : Option Binary64 :=
  let x := Binary64.ofNat n
  if e < 0 then
    let steps := (e.natAbs - 1) / largestTen
    some ((divideDown x steps).div (Binary64.tenPow (e.natAbs - steps * largestTen)))
  else if largestTen < e.natAbs then if n = 0 then some x else none
  else
    let y := x.mul (Binary64.tenPow e.natAbs)
    if y.isInfinite then none else some y

/-- Exponents beyond this are not scaled by. -/
def exponentMax : Nat := 0x7FFFFFFF

/-- The double with significand `n` and exponent `e`, before the numeral's own exponent. -/
def magnitude? (n : Nat) (e : Int) : Option (Bool × List Nat) → Option Binary64
  | none => scale n e
  | some (negative, ds) =>
    if exponentMax < ofDigits ds then if n ≠ 0 && !negative then none else some .zero
    else scale n (if negative then e - ofDigits ds else e + ofDigits ds)

/-- The number; nothing if it is out of range. -/
def value? (t : Numeral) : Option Number :=
  let (n, dropped) := append 0 t.whole
  let real (m : Option Binary64) := m.map fun x => Number.real (if t.negative then x.neg else x)
  match t.fraction, t.exponent with
  | none, none =>
    if dropped.isEmpty then
      if !t.negative then some (.integer n)
      else if 0 < n && n ≤ 0x8000000000000000 then some (.integer (-n))
      else some (.real (Binary64.ofNat n).neg)
    else real (scale n dropped.length)
  | fraction, exponent =>
    let ds := fraction.getD []
    let (n, ignored) := append n ds
    real (magnitude? n (dropped.length - (ds.length - ignored.length : Int)) exponent)

end Numeral

namespace Binary64

/-- Digits at the head of a text, and the rest. -/
def takeDigits : List Char → List Nat × List Char
  | [] => ([], [])
  | c :: cs =>
    if c.isDigit then
      let (ds, rest) := takeDigits cs
      ((c.toNat - '0'.toNat) :: ds, rest)
    else ([], c :: cs)

/-- `d * 10 ^ e` rounded once. An exponent far beyond the range of doubles is cut short. -/
def ofDecimal (negative : Bool) (d : Nat) (e : Int) : Binary64 :=
  if d = 0 then ofWord negative 0
  else
    let digits : Int := (Nat.toDigits 10 d).length
    if 310 < e + digits then infinity negative
    else if e + digits < -330 then ofWord negative 0
    else if e < 0 then ofFraction negative d (Nat.pow 10 e.natAbs)
    else ofFraction negative (d * Nat.pow 10 e.natAbs) 1

/-- The exponent at the end of a decimal text: nothing, or a mark, a sign and digits. -/
def exponentOf? : List Char → Option Int
  | [] => some 0
  | m :: cs =>
    if m != 'e' && m != 'E' then none
    else
      let (negative, cs) := match cs with
        | '-' :: cs => (true, cs)
        | '+' :: cs => (false, cs)
        | cs => (false, cs)
      match takeDigits cs with
      | ([], _) | (_, _ :: _) => none
      | (ds, []) => some (if negative then -Numeral.ofDigits ds else Numeral.ofDigits ds)

/-- Reads a decimal text, or the name of an infinity or of what is not a number. -/
def ofText? (s : String) : Option Binary64 :=
  let (negative, cs) := match s.toList with
    | '-' :: cs => (true, cs)
    | '+' :: cs => (false, cs)
    | cs => (false, cs)
  let name := String.ofList (cs.map Char.toLower)
  if name = "inf" || name = "infinity" then some (infinity negative)
  else if name = "nan" then some (if negative then nan.neg else nan)
  else
    let (whole, cs) := takeDigits cs
    let (fraction, cs) := match cs with
      | '.' :: cs => takeDigits cs
      | cs => ([], cs)
    if whole.isEmpty && fraction.isEmpty then none
    else (exponentOf? cs).map fun e =>
      ofDecimal negative (Numeral.ofDigits (whole ++ fraction)) (e - fraction.length)

end Binary64

end Coupling
