/-
Quoted texts for a reader.

A text is put between double quotes; a quote, a backslash and the common
controls are written with a backslash, and a character that cannot be shown, or
that would attach to the one before it, by its code point.
-/
import Coupling.Text.Printable

namespace Coupling.Text

/-- The digits of `n` in hexadecimal. -/
def hexDigits (n : Nat) : List Char := Nat.toDigits 16 n

/-- `n` in hexadecimal, four digits at least. -/
def hex4 (n : Nat) : String :=
  let ds := hexDigits n
  String.ofList (List.replicate (4 - ds.length) '0' ++ ds)

def quoteChar (c : Char) : List Char :=
  if c = '\x00' then ['\\', '0']
  else if c = '\t' then ['\\', 't']
  else if c = '\r' then ['\\', 'r']
  else if c = '\n' then ['\\', 'n']
  else if c = '"' then ['\\', '"']
  else if c = '\\' then ['\\', '\\']
  else if !printable.contains c then
    ['\\', 'u', '\x7b'] ++ hexDigits c.toNat ++ ['\x7d']
  else [c]

def quote (s : String) : String := "\"" ++ String.ofList (s.toList.flatMap quoteChar) ++ "\""

end Coupling.Text
