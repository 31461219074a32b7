/-
Reading JSON texts.

The tokens of a text drive a machine that keeps the arrays and objects still
open. It takes any nesting depth; a limit is set by who reads the value.
-/
import Coupling.Json.Token

namespace Coupling.Json

/-- An array or object that is still open, what it holds so far last first. An object also has the
name of the member being read; a name that is not text is `none`. -/
inductive Frame where
  | array (items : List Json)
  | object (members : List (Option String × Json)) (name : Option String)

/-- What may come next. The list holds the open arrays and objects, innermost first. -/
inductive Place where
  /-- A value. -/
  | value (opened : List Frame)
  /-- A value or the end of the array just opened. -/
  | firstItem (outer : List Frame)
  /-- A member's name or the end of the object just opened. -/
  | firstName (outer : List Frame)
  /-- A member's name. -/
  | name (members : List (Option String × Json)) (outer : List Frame)
  /-- The colon after a member's name. -/
  | colon (opened : List Frame)
  /-- A comma or the end of the innermost. -/
  | next (opened : List Frame)
  /-- Nothing. -/
  | done (j : Json)

namespace Place

/-- The place after the value `j`. -/
def after (j : Json) : List Frame → Place
  | [] => .done j
  | .array items :: fs => .next (.array (j :: items) :: fs)
  | .object ms k :: fs => .next (.object ((k, j) :: ms) none :: fs)

/-- The members with their names; nothing if a name is not text. -/
def named? : List (Option String × Json) → Option (List (String × Json))
  | [] => some []
  | (none, _) :: _ => none
  | (some k, j) :: ms => (named? ms).map ((k, j) :: ·)

/-- A closed object, given its members last first. -/
def closed (ms : List (Option String × Json)) : Json :=
  (named? ms).elim .unreadable fun ms => .object ms.reverse

/-- The place after the first token of a value. -/
def enter (fs : List Frame) : Token → Option Place
  | .scalar j => some (after j fs)
  | .string s => some (after (s.elim .unreadable .string) fs)
  | .openArray => some (.firstItem fs)
  | .openObject => some (.firstName fs)
  | _ => none

/-- Moves over one token. -/
def step : Place → Token → Option Place
  | .value fs, t => enter fs t
  | .firstItem fs, .closeArray => some (after (.array []) fs)
  | .firstItem fs, t => enter (.array [] :: fs) t
  | .firstName fs, .closeObject => some (after (.object []) fs)
  | .firstName fs, .string k => some (.colon (.object [] k :: fs))
  | .name ms fs, .string k => some (.colon (.object ms k :: fs))
  | .colon fs, .colon => some (.value fs)
  | .next (.array items :: fs), .comma => some (.value (.array items :: fs))
  | .next (.array items :: fs), .closeArray => some (after (.array items.reverse) fs)
  | .next (.object ms _ :: fs), .comma => some (.name ms fs)
  | .next (.object ms _ :: fs), .closeObject => some (after (closed ms) fs)
  | _, _ => none

end Place

/-- The value of a sequence of tokens. -/
def ofTokens? (ts : List Token) : Option Json :=
  match ts.foldlM Place.step (.value []) with
  | some (.done j) => some j
  | _ => none

/-- The value of a JSON text, given as octets. -/
def ofOctets? (bs : List UInt8) : Option Json := (Token.ofOctets? bs).bind ofTokens?

/-- The value of a JSON text. -/
def ofString? (s : String) : Option Json := ofOctets? s.toUTF8.toList

end Coupling.Json
