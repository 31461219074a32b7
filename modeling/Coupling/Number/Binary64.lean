/-
Double precision numbers.

A `Binary64` is its 64 bits. The magnitude of a finite one is a whole number
of units of `2^-1074`, the smallest step there is, so sums, products and
quotients are exact fractions of naturals that one function, `roundUnits`,
carries to the nearest double, a tie to the even one.
-/

namespace Coupling

structure Binary64 where
  bits : UInt64
  deriving DecidableEq, Inhabited

namespace Binary64

/-! ## Fields -/

def word (x : Binary64) : Nat := x.bits.toNat

/-- The place of the sign. -/
def signUnit : Nat := 1 <<< 63

/-- The place of the exponent. -/
def exponentUnit : Nat := 1 <<< 52

def isNegative (x : Binary64) : Bool := signUnit ≤ x.word

/-- The bits below the sign, which grow with the magnitude. -/
def magnitude (x : Binary64) : Nat := x.word % signUnit

/-- The magnitude bits of an infinity. -/
def infinityWord : Nat := 2047 * exponentUnit

def isNaN (x : Binary64) : Bool := infinityWord < x.magnitude

def isInfinite (x : Binary64) : Bool := x.magnitude == infinityWord

def isZero (x : Binary64) : Bool := x.magnitude == 0

/-- Units of `2^-1074` in the double whose bits below the sign are `w`. -/
def unitsOf (w : Nat) : Nat :=
  if w < exponentUnit then w else (exponentUnit + w % exponentUnit) <<< (w / exponentUnit - 1)

def units (x : Binary64) : Nat := unitsOf x.magnitude

def ofWord (negative : Bool) (w : Nat) : Binary64 :=
  ⟨UInt64.ofNat (if negative then signUnit + w else w)⟩

def zero : Binary64 := ofWord false 0

def infinity (negative : Bool) : Binary64 := ofWord negative infinityWord

def nan : Binary64 := ofWord false (infinityWord + exponentUnit / 2)

/-! ## Rounding -/

/-- Units in one, as a power of two. -/
def unitScale : Nat := 1 <<< 1074

/-- The bits below the sign of the double nearest to `num / den` units, a tie going to the even
one, an overflow to infinity. With `m` the rounded 53-bit quotient and `s` the places it was
shifted by, the bits are `s * 2^52 + m`, also when rounding carries into the next power of two. -/
def roundUnits (num den : Nat) : Nat :=
  let shift := (num / den).log2 - 52
  let unit := den <<< shift
  let m := num / unit
  let r := num % unit
  let m := if 2 * r > unit || (2 * r == unit && m % 2 == 1) then m + 1 else m
  min (shift * exponentUnit + m) infinityWord

/-- The double nearest to the fraction `num / den`. -/
def ofFraction (negative : Bool) (num den : Nat) : Binary64 :=
  ofWord negative (roundUnits (num * unitScale) den)

def ofNat (n : Nat) : Binary64 := ofFraction false n 1

def ofInt (i : Int) : Binary64 := ofFraction (i < 0) i.natAbs 1

/-- The double nearest to `10 ^ n`. -/
def tenPow (n : Nat) : Binary64 := ofNat (Nat.pow 10 n)

/-! ## Arithmetic -/

def neg (x : Binary64) : Binary64 := ofWord (!x.isNegative) x.magnitude

/-- The units of a finite double, with its sign. -/
def signedUnits (x : Binary64) : Int := if x.isNegative then -x.units else x.units

def add (x y : Binary64) : Binary64 :=
  if x.isNaN || y.isNaN then nan
  else if x.isInfinite then
    if y.isInfinite && x.isNegative != y.isNegative then nan else x
  else if y.isInfinite then y
  else
    let s := x.signedUnits + y.signedUnits
    if s = 0 then ofWord (x.isNegative && y.isNegative) 0
    else ofWord (s < 0) (roundUnits s.natAbs 1)

def mul (x y : Binary64) : Binary64 :=
  let negative := x.isNegative != y.isNegative
  if x.isNaN || y.isNaN then nan
  else if x.isInfinite || y.isInfinite then
    if x.isZero || y.isZero then nan else infinity negative
  else ofWord negative (roundUnits (x.units * y.units) unitScale)

def div (x y : Binary64) : Binary64 :=
  let negative := x.isNegative != y.isNegative
  if x.isNaN || y.isNaN then nan
  else if x.isInfinite then if y.isInfinite then nan else infinity negative
  else if y.isInfinite then ofWord negative 0
  else if y.isZero then if x.isZero then nan else infinity negative
  else ofWord negative (roundUnits (x.units * unitScale) y.units)

/-! ## Order -/

/-- A whole number that orders the doubles which are numbers; both zeros are 0. -/
def rank (x : Binary64) : Int := if x.isNegative then -x.magnitude else x.magnitude

/-- `x < y`, which is false as soon as one of them is not a number. -/
def lt (x y : Binary64) : Bool := !x.isNaN && !y.isNaN && x.rank < y.rank

/-- A whole number that orders all doubles: negative zero is below zero, and what is not a number
lies beyond the infinities. -/
def totalRank (x : Binary64) : Int := if x.isNegative then -x.magnitude - 1 else x.magnitude

def totalCompare (x y : Binary64) : Ordering := compare x.totalRank y.totalRank

end Binary64

end Coupling
