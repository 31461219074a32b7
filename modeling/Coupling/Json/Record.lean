/-
Records in JSON.

A record of named fields is written as an object, in any order and with other
members among them, or as an array of the fields in their order. A tagged value
has one more field in front, which says what the rest is.
-/
import Coupling.Json.Value

namespace Coupling.Json

/-- The fields that are there, each at most once. -/
abbrev Record := List (String × Json)

/-- The fields of `names` that a value holds. An object may not hold one twice; an array may not
hold more than there are names. -/
def record? (names : List String) : Json → Option Record
  | .object ms =>
    let known := ms.filter fun (k, _) => names.contains k
    if (known.map (·.1)).Nodup then some known else none
  | .array js => if js.length ≤ names.length then some (names.zip js) else none
  | _ => none

/-- The member that tags a value, and the value without it. -/
def untag? (tag : String) : Json → Option (Json × Json)
  | .object ms =>
    match ms.filter fun (k, _) => k == tag with
    | [(_, j)] => some (j, .object (ms.filter fun (k, _) => k != tag))
    | _ => none
  | .array (j :: js) => some (j, .array js)
  | _ => none

namespace Record

variable {α : Type}

/-- A field that must be there. -/
def required (r : Record) (name : String) (read : Json → Option α) : Option α :=
  (r.lookup name).bind read

/-- A field with a value for when it is missing. -/
def withDefault (r : Record) (name : String) (default : α) (read : Json → Option α) : Option α :=
  match r.lookup name with
  | none => some default
  | some j => read j

/-- A field that may be missing or null. -/
def optional (r : Record) (name : String) (read : Json → Option α) : Option (Option α) :=
  match r.lookup name with
  | none | some .null => some none
  | some j => (read j).map some

end Record

/-- A natural number of at most `max`. -/
def nat? (max : Nat) : Json → Option Nat
  | .number (.integer (.ofNat n)) => if n ≤ max then some n else none
  | _ => none

end Coupling.Json
