/-
JSON values and how they are written.

A string is text and a number has a value. What a JSON text may spell without
that being so (an escaped lone surrogate, octets that are no text, a number out
of range) is kept as `unreadable`: it may be passed over, not read.
-/
import Coupling.Number.Layout
import Coupling.Number.Numeral

namespace Coupling

inductive Json where
  | null
  | bool (b : Bool)
  | number (n : Number)
  | string (s : String)
  | array (items : List Json)
  | object (members : List (String × Json))
  | unreadable
  deriving Inhabited

namespace Json

/-! ## Building and taking apart -/

def nat (n : Nat) : Json := .number (.integer n)

def ofOption {α : Type} (f : α → Json) : Option α → Json
  | none => .null
  | some a => f a

def list {α : Type} (f : α → Json) (as : List α) : Json := .array (as.map f)

/-- The member of a name in an object. -/
def get? (j : Json) (name : String) : Option Json :=
  match j with
  | .object ms => ms.lookup name
  | _ => none

def string? : Json → Option String
  | .string s => some s
  | _ => none

def bool? : Json → Option Bool
  | .bool b => some b
  | _ => none

def int? : Json → Option Int
  | .number (.integer i) => some i
  | _ => none

def array? : Json → Option (List Json)
  | .array js => some js
  | _ => none

mutual

/-- Whether everything in the value can be read and nests at most `room` arrays and objects deep. -/
def readable (room : Nat) : Json → Bool
  | .null | .bool _ | .number _ | .string _ => true
  | .unreadable => false
  | .array js => 0 < room && allReadable (room - 1) js
  | .object ms => 0 < room && membersReadable (room - 1) ms

def allReadable (room : Nat) : List Json → Bool
  | [] => true
  | j :: js => readable room j && allReadable room js

def membersReadable (room : Nat) : List (String × Json) → Bool
  | [] => true
  | (_, j) :: ms => readable room j && membersReadable room ms

end

/-! ## Writing -/

/-- A character of a written string. -/
def escape (c : Char) : List Char :=
  if c = '"' then ['\\', '"']
  else if c = '\\' then ['\\', '\\']
  else if c = '\n' then ['\\', 'n']
  else if c = '\r' then ['\\', 'r']
  else if c = '\t' then ['\\', 't']
  else if c = '\x08' then ['\\', 'b']
  else if c = '\x0c' then ['\\', 'f']
  else if c.toNat < 32 then
    ['\\', 'u', '0', '0', Nat.digitChar (c.toNat / 16), Nat.digitChar (c.toNat % 16)]
  else [c]

def quoted (s : String) : String := "\"" ++ String.ofList (s.toList.flatMap escape) ++ "\""

/-- A double that is not finite has no JSON form and is written as null. -/
def writeNumber : Number → String
  | .integer i => toString i
  | .real x => if x.isNaN || x.isInfinite then "null" else x.render Layout.json

mutual

/-- The text of a value, without blanks. -/
def write : Json → String
  | .null | .unreadable => "null"
  | .bool b => if b then "true" else "false"
  | .number n => writeNumber n
  | .string s => quoted s
  | .array js => "[" ++ ",".intercalate (writeAll js) ++ "]"
  | .object ms => "\x7b" ++ ",".intercalate (writeMembers ms) ++ "\x7d"

def writeAll : List Json → List String
  | [] => []
  | j :: js => j.write :: writeAll js

def writeMembers : List (String × Json) → List String
  | [] => []
  | (k, j) :: ms => (quoted k ++ ":" ++ j.write) :: writeMembers ms

end

end Json

end Coupling
