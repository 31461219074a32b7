/-
The shortest decimal that reads back as a given double.

A decimal reads back as a double when it lies in the interval that rounds to
it. `shortest` looks for the fewest digits with which some decimal lies there,
and of those takes the one nearest to the double.
-/
import Coupling.Number.Binary64

namespace Coupling

/-- The number `digits * 10 ^ exponent`. -/
structure Decimal where
  digits : Nat
  exponent : Int
  deriving DecidableEq

/-- Which of two equally near neighbours is taken. -/
inductive Tie where
  | toEven
  | up
  deriving DecidableEq

namespace Binary64

/-- The decimal digits of a natural number, most significant first. -/
def decimalDigits (n : Nat) : List Char := Nat.toDigits 10 n

/-- Decimals are looked for among multiples of `10 ^ -places` that are not smaller than every
nonzero double. -/
def places : Nat := 400

/-- The least `k` such that the double of `u` units is below `10 ^ k`, for a nonzero `u`. -/
def decimalPoint (u : Nat) : Int :=
  ((decimalDigits (u * Nat.pow 10 places / unitScale)).length : Int) - places

/-- Numerator and denominator of `n * 10 ^ e`. -/
def scaleTen (n : Nat) (e : Int) : Nat × Nat :=
  if e < 0 then (n, Nat.pow 10 e.natAbs) else (n * Nat.pow 10 e.natAbs, 1)

/-- Whether `c * 10 ^ e` lies among the numbers that round to the double of bits `w`. The ends of
that interval are halfway to the neighbours and belong to it when the double is even. -/
def roundsTo (w c : Nat) (e : Int) : Bool :=
  let (num, den) := scaleTen c e
  let x := 2 * num * unitScale
  let lo := (unitsOf w + unitsOf (w - 1)) * den
  let hi := (unitsOf w + unitsOf (w + 1)) * den
  (lo < x && x < hi) || (w % 2 == 0 && (x == lo || x == hi))

/-- The decimal on the grid of step `10 ^ e` that reads back as the double of bits `w`, the nearer
if both neighbours do. -/
def onGrid? (tie : Tie) (w : Nat) (e : Int) : Option Nat :=
  let (num, den) := scaleTen 1 e
  let step := num * unitScale
  let below := unitsOf w * den / step
  let rest := unitsOf w * den % step
  match roundsTo w below e, roundsTo w (below + 1) e with
  | true, true =>
    let upper := match compare (2 * rest) step, tie with
      | .lt, _ => false
      | .gt, _ | .eq, .up => true
      | .eq, .toEven => below % 2 == 1
    some (if upper then below + 1 else below)
  | true, false => some below
  | false, true => some (below + 1)
  | false, false => none

/-- Tries the grids of `n`, `n + 1`, ... digits, `fuel` of them. -/
def search (tie : Tie) (w : Nat) (point : Int) : (fuel n : Nat) → Decimal
  | 0, _ => ⟨0, 0⟩
  | fuel + 1, n =>
    match onGrid? tie w (point - n) with
    | some c => ⟨c, point - n⟩
    | none => search tie w point fuel (n + 1)

/-- The shortest decimal of a finite nonzero double's magnitude. Seventeen digits always suffice. -/
def shortest (tie : Tie) (x : Binary64) : Decimal :=
  search tie x.magnitude (decimalPoint x.units) 17 1

end Binary64

end Coupling
