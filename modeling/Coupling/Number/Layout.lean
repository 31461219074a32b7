/-
How numbers are written.

A `Layout` says where positional notation ends, whether a whole number keeps
`.0`, and how ties between two shortest decimals go; `Binary64.render` writes
the shortest decimal of a double by it.
-/
import Coupling.Number.Shortest

namespace Coupling

structure Layout where
  /-- Whether a leading digit of this decimal exponent is written without an exponent mark. -/
  positional : Int → Bool
  /-- Whether a whole number written positionally ends in `.0`. -/
  keepsPoint : Bool
  tie : Tie

namespace Layout

/-- Positional always, whole numbers without a point. -/
def plain : Layout := ⟨fun _ => true, false, .up⟩

/-- Positional from `10^-5` to below `10^16`, and always with a point or an exponent. -/
def json : Layout := ⟨fun e => decide (-5 ≤ e ∧ e ≤ 15), true, .toEven⟩

end Layout

namespace Binary64

/-- `ds` without its last zeros, and how many of them there were. -/
def dropLastZeros (ds : List Char) : List Char × Nat :=
  let kept := (ds.reverse.dropWhile (· == '0')).reverse
  (kept, ds.length - kept.length)

/-- The digits `ds` with the decimal point `point` places to the right of their start. -/
def positionalText (ds : List Char) (point : Int) (keepsPoint : Bool) : List Char :=
  if point ≤ 0 then '0' :: '.' :: (List.replicate point.natAbs '0' ++ ds)
  else
    let n := point.natAbs
    if ds.length ≤ n then
      ds ++ List.replicate (n - ds.length) '0' ++ (if keepsPoint then ['.', '0'] else [])
    else ds.take n ++ '.' :: ds.drop n

/-- One digit before the point, then `e` and a signed exponent. -/
def scientificText (ds : List Char) (exponent : Int) : List Char :=
  let fraction := if ds.length ≤ 1 then [] else '.' :: ds.drop 1
  ds.take 1 ++ fraction ++ 'e' :: (if exponent < 0 then '-' else '+') :: decimalDigits exponent.natAbs

/-- The text of a nonzero magnitude. -/
def magnitudeText (layout : Layout) (d : Decimal) : List Char :=
  let (ds, zeros) := dropLastZeros (decimalDigits d.digits)
  let point := d.exponent + zeros + ds.length
  if layout.positional (point - 1) then positionalText ds point layout.keepsPoint
  else scientificText ds (point - 1)

def render (layout : Layout) (x : Binary64) : String :=
  if x.isNaN then "NaN"
  else
    let sign := if x.isNegative then "-" else ""
    if x.isInfinite then sign ++ "inf"
    else if x.isZero then sign ++ (if layout.keepsPoint then "0.0" else "0")
    else sign ++ String.ofList (magnitudeText layout (x.shortest layout.tie))

end Binary64

end Coupling
