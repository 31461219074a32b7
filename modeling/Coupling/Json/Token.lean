/-
The tokens of a JSON text.

`Token.ofOctets?` divides the octets of a text into punctuation, literals,
numbers and strings. It refuses what no JSON text holds; a string or number
that is well spelled but has no value is a token all the same.
-/
import Coupling.Json.Value

namespace Coupling.Json

inductive Token where
  | openArray
  | closeArray
  | openObject
  | closeObject
  | comma
  | colon
  /-- A literal or a number; one out of range is `Json.unreadable`. -/
  | scalar (j : Json)
  /-- A string, with its text if it is text. -/
  | string (s : Option String)

namespace Token

/-- The octet of an ASCII character. -/
def octet (c : Char) : UInt8 := c.toNat.toUInt8

/-! ## Strings -/

/-- A piece of a string: an octet of its text, or a UTF-16 code unit written as an escape. -/
inductive Piece where
  | octet (b : UInt8)
  | unit (u : Nat)

/-- The value of a hexadecimal digit. -/
def hexDigit? (b : UInt8) : Option Nat :=
  let n := b.toNat
  if 48 ≤ n ∧ n ≤ 57 then some (n - 48)
  else if 97 ≤ n ∧ n ≤ 102 then some (n - 87)
  else if 65 ≤ n ∧ n ≤ 70 then some (n - 55)
  else none

/-- The octet an escape of one character stands for. -/
def shortEscape? (b : UInt8) : Option UInt8 :=
  if b = octet '"' || b = octet '\\' || b = octet '/' then some b
  else if b = octet 'b' then some 8
  else if b = octet 'f' then some 12
  else if b = octet 'n' then some 10
  else if b = octet 'r' then some 13
  else if b = octet 't' then some 9
  else none

/-- Reads up to the closing quote; `acc` holds the pieces read so far, last first. -/
def takeString (acc : List Piece) : List UInt8 → Option (List Piece × List UInt8)
  | [] => none
  | b :: bs =>
    if b = octet '"' then some (acc.reverse, bs)
    else if b = octet '\\' then
      match bs with
      | [] => none
      | e :: bs =>
        if e = octet 'u' then
          match bs with
          | b1 :: b2 :: b3 :: b4 :: bs =>
            match hexDigit? b1, hexDigit? b2, hexDigit? b3, hexDigit? b4 with
            | some h1, some h2, some h3, some h4 =>
              takeString (.unit (((h1 * 16 + h2) * 16 + h3) * 16 + h4) :: acc) bs
            | _, _, _, _ => none
          | _ => none
        else
          match shortEscape? e with
          | some o => takeString (.octet o :: acc) bs
          | none => none
    else if b < 32 then none
    else takeString (.octet b :: acc) bs

/-- The octets of a code point that is a character. -/
def utf8 (n : Nat) : List UInt8 := (Char.ofNat n).toString.toUTF8.toList

def isLeadingSurrogate (u : Nat) : Bool := 0xD800 ≤ u && u ≤ 0xDBFF

def isTrailingSurrogate (u : Nat) : Bool := 0xDC00 ≤ u && u ≤ 0xDFFF

/-- The octets of a string's text, last first. Surrogates must come in pairs. -/
def textOctets? (acc : List UInt8) : List Piece → Option (List UInt8)
  | [] => some acc
  | .octet b :: ps => textOctets? (b :: acc) ps
  | .unit u :: ps =>
    if isTrailingSurrogate u then none
    else if isLeadingSurrogate u then
      match ps with
      | .unit v :: ps =>
        if isTrailingSurrogate v then
          textOctets? ((utf8 ((u - 0xD800) * 1024 + (v - 0xDC00) + 0x10000)).reverse ++ acc) ps
        else none
      | _ => none
    else textOctets? ((utf8 u).reverse ++ acc) ps

/-- The text of a string, if it is text. -/
def text? (ps : List Piece) : Option String :=
  (textOctets? [] ps).bind fun bs => String.fromUTF8? ⟨bs.reverse.toArray⟩

/-! ## Numbers -/

/-- The digits at the head, and the rest. -/
def takeDigits : List UInt8 → List Nat × List UInt8
  | [] => ([], [])
  | b :: bs =>
    if 48 ≤ b ∧ b ≤ 57 then
      let (ds, rest) := takeDigits bs
      ((b.toNat - 48) :: ds, rest)
    else ([], b :: bs)

/-- The whole part: zero alone, or digits that do not begin with it. -/
def takeWhole? (bs : List UInt8) : Option (List Nat × List UInt8) :=
  match takeDigits bs with
  | ([], _) => none
  | (0 :: _ :: _, _) => none
  | (ds, rest) => some (ds, rest)

def takeFraction? : List UInt8 → Option (Option (List Nat) × List UInt8)
  | [] => some (none, [])
  | b :: bs =>
    if b = octet '.' then
      match takeDigits bs with
      | ([], _) => none
      | (ds, rest) => some (some ds, rest)
    else some (none, b :: bs)

def takeExponent? : List UInt8 → Option (Option (Bool × List Nat) × List UInt8)
  | [] => some (none, [])
  | b :: bs =>
    if b = octet 'e' || b = octet 'E' then
      let (negative, bs) := match bs with
        | [] => (false, [])
        | s :: r => if s = octet '-' then (true, r) else if s = octet '+' then (false, r) else (false, bs)
      match takeDigits bs with
      | ([], _) => none
      | (ds, rest) => some (some (negative, ds), rest)
    else some (none, b :: bs)

/-- A number after its sign. -/
def takeNumeral? (negative : Bool) (bs : List UInt8) : Option (Numeral × List UInt8) := do
  let (whole, bs) ← takeWhole? bs
  let (fraction, bs) ← takeFraction? bs
  let (exponent, bs) ← takeExponent? bs
  return (⟨negative, whole, fraction, exponent⟩, bs)

/-! ## Tokens -/

/-- What follows the letters of a literal. -/
def takeWord? : List Char → List UInt8 → Option (List UInt8)
  | [], bs => some bs
  | _ :: _, [] => none
  | c :: cs, b :: bs => if b = octet c then takeWord? cs bs else none

def isBlank (b : UInt8) : Bool := b = 32 || b = 9 || b = 10 || b = 13

/-- Reads one token that begins with the octet `b`. -/
def take? (b : UInt8) (bs : List UInt8) : Option (Token × List UInt8) :=
  if b = octet '[' then some (.openArray, bs)
  else if b = octet ']' then some (.closeArray, bs)
  else if b = 0x7b then some (.openObject, bs)
  else if b = 0x7d then some (.closeObject, bs)
  else if b = octet ',' then some (.comma, bs)
  else if b = octet ':' then some (.colon, bs)
  else if b = octet '"' then
    (takeString [] bs).map fun (ps, rest) => (.string (text? ps), rest)
  else if b = octet 'n' then (takeWord? ['u', 'l', 'l'] bs).map fun r => (.scalar .null, r)
  else if b = octet 't' then (takeWord? ['r', 'u', 'e'] bs).map fun r => (.scalar (.bool true), r)
  else if b = octet 'f' then
    (takeWord? ['a', 'l', 's', 'e'] bs).map fun r => (.scalar (.bool false), r)
  else
    (if b = octet '-' then takeNumeral? true bs else takeNumeral? false (b :: bs)).map
      fun (t, r) => (.scalar (t.value?.elim .unreadable .number), r)

/-- Reads tokens until the octets end; `fuel` bounds their number. -/
def takeAll? : (fuel : Nat) → List Token → List UInt8 → Option (List Token)
  | _, acc, [] => some acc.reverse
  | 0, _, _ :: _ => none
  | fuel + 1, acc, b :: bs =>
    if isBlank b then takeAll? fuel acc bs
    else
      match take? b bs with
      | none => none
      | some (t, rest) => takeAll? fuel (t :: acc) rest

/-- The tokens of a text. Every token takes an octet at least. -/
def ofOctets? (bs : List UInt8) : Option (List Token) := takeAll? bs.length [] bs

end Token

end Coupling.Json
