/-
Character classes by name.

A class is named by a property, a general category or a script, or by a value
of a property that has more than two: a category, a script, an age or a role
where text breaks. Names are compared without case, blanks, hyphens and
underscores, and without an `is` in front.
-/
import Coupling.Text.Age
import Coupling.Text.Segmentation

namespace Coupling.Pattern.ClassName

/-- The form of a name that is compared. -/
def normalize (name : List Char) : String :=
  let rest := match name with
    | a :: b :: rest => if a.toLower == 'i' && b.toLower == 's' then rest else name
    | _ => name
  let kept := (rest.filter fun c => c.toNat < 0x80 && c != ' ' && c != '_' && c != '-').map Char.toLower
  String.ofList (if kept == ['c'] && rest.length < name.length then ['i', 's', 'c'] else kept)

/-- The class listed under a normalized name. -/
def find? (classes : List (List String × CharSet)) (name : String) : Option CharSet :=
  (classes.find? (·.1.contains name)).map (·.2)

/-- The characters a script is written with. -/
def extended? (name : String) : Option CharSet := do
  let (names, own) ← Text.Script.named.find? (·.1.contains name)
  let listed (table : List (String × CharSet)) :=
    (((table.find? fun e => names.contains e.1).map (·.2)).getD .empty)
  return (own.diff (listed Text.Script.specific)).union (listed Text.Script.extensions)

/-- Names that are short for a category, though a property goes by them too. -/
def categoriesFirst : List String := ["cf", "sc", "lc"]

/-- The class of a single name. -/
def single? (name : List Char) : Option CharSet :=
  let n := normalize name
  let property := if categoriesFirst.contains n then none else find? Text.Property.named n
  property <|> find? Text.Category.named n <|> find? Text.Script.named n

/-- The class of a property's value. -/
def byValue? (property value : List Char) : Option CharSet :=
  let v := normalize value
  match normalize property with
  | "gc" | "generalcategory" => find? Text.Category.named v
  | "sc" | "script" => find? Text.Script.named v
  | "scx" | "scriptextensions" => extended? v
  | "age" => Text.Age.upTo? v [] Text.Age.introduced
  | "gcb" | "graphemeclusterbreak" => find? Text.Segmentation.grapheme v
  | "wb" | "wordbreak" => find? Text.Segmentation.word v
  | "sb" | "sentencebreak" => find? Text.Segmentation.sentence v
  | _ => none

/-- The text before and after the first occurrence of a sign. -/
def cutAt? (sign : List Char) : List Char → Option (List Char × List Char)
  | [] => none
  | c :: cs =>
    match Text.after? sign (c :: cs) with
    | some rest => some ([], rest)
    | none => (cutAt? sign cs).map fun (before, after) => (c :: before, after)

/-- The class of a name in braces, and whether it is the complement that is meant. -/
def braced? (name : List Char) : Option (CharSet × Bool) :=
  match cutAt? ['!', '='] name with
  | some (p, v) => (byValue? p v).map (·, true)
  | none =>
    match cutAt? [':'] name <|> cutAt? ['='] name with
    | some (p, v) => (byValue? p v).map (·, false)
    | none => (single? name).map (·, false)

/-- The ASCII class of a name between `[:` and `:]`. -/
def ascii? : String → Option CharSet
  | "alnum" => some (.ofText "30-39 41-5a 61-7a")
  | "alpha" => some (.ofText "41-5a 61-7a")
  | "ascii" => some (.ofText "0-7f")
  | "blank" => some (.ofText "9 20")
  | "cntrl" => some (.ofText "0-1f 7f")
  | "digit" => some (.ofText "30-39")
  | "graph" => some (.ofText "21-7e")
  | "lower" => some (.ofText "61-7a")
  | "print" => some (.ofText "20-7e")
  | "punct" => some (.ofText "21-2f 3a-40 5b-60 7b-7e")
  | "space" => some (.ofText "9-d 20")
  | "upper" => some (.ofText "41-5a")
  | "word" => some (.ofText "30-39 41-5a 5f 61-7a")
  | "xdigit" => some (.ofText "30-39 41-46 61-66")
  | _ => none

end Coupling.Pattern.ClassName
