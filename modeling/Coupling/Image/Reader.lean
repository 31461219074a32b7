/-
Reading module images.

Every part of an image is a record, a tagged record or a list. `room` is how
many arrays and objects may still be opened: an image nests at most 127 of them.
Members that no field is named after are passed over unread, except inside a
reference or an operand, which are taken in whole before they are understood.
-/
import Coupling.Image
import Coupling.Json.Reader
import Coupling.Json.Record

namespace Coupling

open Json (Record)

/-- A list whose items are read with the room that is left inside it. -/
def Json.listOf? {α : Type} (room : Nat) (read : Nat → Json → Option α) : Json → Option (List α)
  | .array js =>
    match room with
    | 0 => none
    | room + 1 => js.mapM (read room)
  | _ => none

/-- A value that may hold a list of values of its own kind. `read` is given the room that is left
inside it and how such a list is read there. -/
def Json.nestOf? {α : Type} (read : Nat → (Json → Option (List α)) → Json → Option α) :
    (room : Nat) → Json → Option α
  | 0, _ => none
  | room + 1, j =>
    let items : Json → Option (List α)
      | .array js =>
        match room with
        | 0 => none
        | room + 1 => js.mapM (nestOf? read room)
      | _ => none
    read room items j

/-- The choice a text names: the text itself, or an object of that one member, null. -/
def Json.choice? {α : Type} (room : Nat) (named : String → Option α) : Json → Option α
  | .string s => named s
  | .object [(s, .null)] => if 0 < room then named s else none
  | _ => none

namespace TypeRefImage

/-- The kinds of spelled-out references, in the order they are numbered in. -/
def kinds : List String :=
  ["plain", "generic_parameter", "generic_instance", "array", "by_reference", "pointer",
   "function_pointer"]

/-- The kind a tag names by its text or its number. -/
def kind? : Json → Option String
  | .string s => if kinds.contains s then some s else none
  | .number (.integer (.ofNat n)) => kinds[n]?
  | _ => none

def rankMax : Nat := 0xFFFFFFFF

/-- Whether the fields of a value without any hold nothing: other members of an object do not
count, items of an array do. -/
def isFieldless : Json → Bool
  | .object _ | .array [] => true
  | _ => false

/-- Understands a reference that was taken in whole, `room` deep. -/
def understand? : (room : Nat) → Json → Option TypeRefImage
  | _, .string s => some (.own s)
  | 0, _ => none
  | room + 1, j => do
    let (tag, fields) ← j.untag? "kind"
    let references : Json → Option (List TypeRefImage)
      | .array js =>
        match room with
        | 0 => none
        | room + 1 => js.mapM (understand? room)
      | _ => none
    match ← kind? tag with
    | "plain" =>
      let r ← fields.record? ["name", "scope"]
      return .plain (← r.required "name" Json.string?) (← r.optional "scope" Json.string?)
    | "generic_parameter" =>
      let r ← fields.record? ["name", "owner", "constraints"]
      return .genericParameter (← r.required "name" Json.string?) (← r.required "owner" Json.string?)
        (← r.withDefault "constraints" [] references)
    | "generic_instance" =>
      let r ← fields.record? ["element", "arguments"]
      return .genericInstance (← r.required "element" (understand? room))
        (← r.required "arguments" references)
    | "array" =>
      let r ← fields.record? ["element", "rank"]
      return .array (← r.required "element" (understand? room))
        (← r.withDefault "rank" 1 (Json.nat? rankMax))
    | "by_reference" =>
      let r ← fields.record? ["element"]
      return .byReference (← r.required "element" (understand? room))
    | "pointer" =>
      let r ← fields.record? ["element"]
      return .pointer (← r.required "element" (understand? room))
    | _ => if isFieldless fields then some .functionPointer else none

def ofJson? (room : Nat) (j : Json) : Option TypeRefImage :=
  if j.readable room then understand? room j else none

end TypeRefImage

def GenericParamImage.ofJson? : (room : Nat) → Json → Option GenericParamImage
  | 0, _ => none
  | room + 1, j => do
    let r ← j.record? ["name", "constraints"]
    return ⟨← r.required "name" Json.string?,
      ← r.withDefault "constraints" [] (Json.listOf? room TypeRefImage.ofJson?)⟩

def FieldImage.ofJson? : (room : Nat) → Json → Option FieldImage
  | 0, _ => none
  | room + 1, j => do
    let r ← j.record? ["name", "type"]
    return ⟨← r.required "name" Json.string?, ← r.required "type" (TypeRefImage.ofJson? room)⟩

def ParamImage.ofJson? : (room : Nat) → Json → Option ParamImage
  | 0, _ => none
  | room + 1, j => do
    let r ← j.record? ["name", "type"]
    return ⟨← r.withDefault "name" "" Json.string?, ← r.required "type" (TypeRefImage.ofJson? room)⟩

namespace OperandImage

def indexMax : Nat := 0xFFFF

def wordMax : Nat := 0xFFFFFFFF

/-- An integer of 64 bits. -/
def int64? : Json → Option Int
  | .number (.integer i) => if -0x8000000000000000 ≤ i ∧ i < 0x8000000000000000 then some i else none
  | _ => none

/-- A double; an integer is rounded to one. -/
def double? : Json → Option Binary64
  | .number (.integer i) => some (.ofInt i)
  | .number (.real x) => some x
  | _ => none

/-- Understands the fields of an operand of the given kind, `room` deep. -/
def understand? (room : Nat) (kind : String) (fields : Json) : Option OperandImage := do
  let reference := TypeRefImage.understand? room
  match kind with
  | "type" =>
    let r ← fields.record? ["type"]
    return .type (← r.required "type" reference)
  | "method" =>
    let r ← fields.record? ["declaring", "name", "returns", "params"]
    return .method (← r.required "declaring" reference) (← r.required "name" Json.string?)
      (← r.optional "returns" reference)
      (← r.withDefault "params" [] (Json.listOf? room TypeRefImage.understand?))
  | "field" =>
    let r ← fields.record? ["declaring", "name", "type"]
    return .field (← r.required "declaring" reference) (← r.required "name" Json.string?)
      (← r.required "type" reference)
  | "local" =>
    let r ← fields.record? ["index"]
    return .localVar (← r.required "index" (Json.nat? indexMax))
  | "argument" =>
    let r ← fields.record? ["index"]
    return .argument (← r.required "index" (Json.nat? indexMax))
  | "target" =>
    let r ← fields.record? ["offset"]
    return .target (← r.required "offset" (Json.nat? wordMax))
  | "switch" =>
    let r ← fields.record? ["targets"]
    return .switch (← r.required "targets" (Json.listOf? room fun _ => Json.nat? wordMax))
  | "int" =>
    let r ← fields.record? ["value"]
    return .int (← r.required "value" int64?)
  | "float" =>
    let r ← fields.record? ["value"]
    return .float (← r.required "value" double?)
  | "string" =>
    let r ← fields.record? ["value"]
    return .string (← r.required "value" Json.string?)
  | _ => none

/-- The kind of an operand is a text. -/
def ofJson? : (room : Nat) → Json → Option OperandImage
  | 0, _ => none
  | room + 1, j => do
    guard (j.readable (room + 1))
    let (tag, fields) ← j.untag? "kind"
    understand? room (← tag.string?) fields

end OperandImage

def InstructionImage.ofJson? : (room : Nat) → Json → Option InstructionImage
  | 0, _ => none
  | room + 1, j => do
    let r ← j.record? ["offset", "op", "operand"]
    return ⟨← r.optional "offset" (Json.nat? OperandImage.wordMax), ← r.required "op" Json.string?,
      ← r.optional "operand" (OperandImage.ofJson? room)⟩

def SemanticsImage.named? : String → Option SemanticsImage
  | "getter" => some .getter
  | "setter" => some .setter
  | "adder" => some .adder
  | "remover" => some .remover
  | _ => none

def TypeKindImage.named? : String → Option TypeKindImage
  | "class" => some .class
  | "interface" => some .interface
  | "struct" => some .struct
  | _ => none

def MethodImage.ofJson? : (room : Nat) → Json → Option MethodImage
  | 0, _ => none
  | room + 1, j => do
    let r ← j.record?
      ["name", "returns", "params", "generic_params", "static", "abstract", "semantics", "body"]
    return {
      name := ← r.required "name" Json.string?
      returns := ← r.optional "returns" (TypeRefImage.ofJson? room)
      params := ← r.withDefault "params" [] (Json.listOf? room ParamImage.ofJson?)
      genericParams :=
        ← r.withDefault "generic_params" [] (Json.listOf? room GenericParamImage.ofJson?)
      isStatic := ← r.withDefault "static" false Json.bool?
      isAbstract := ← r.withDefault "abstract" false Json.bool?
      semantics := ← r.optional "semantics" (Json.choice? room SemanticsImage.named?)
      body := ← r.optional "body" (Json.listOf? room InstructionImage.ofJson?) }

/-- A type; `types` reads the list of the types nested in it. -/
def TypeImage.ofObject? (room : Nat) (types : Json → Option (List TypeImage)) (j : Json) :
    Option TypeImage := do
  let r ← j.record?
    ["name", "kind", "abstract", "sealed", "base", "interfaces", "generic_params", "attributes",
     "fields", "methods", "nested"]
  return {
    name := ← r.required "name" Json.string?
    kind := ← r.withDefault "kind" .class (Json.choice? room TypeKindImage.named?)
    isAbstract := ← r.withDefault "abstract" false Json.bool?
    isSealed := ← r.withDefault "sealed" false Json.bool?
    base := ← r.optional "base" (TypeRefImage.ofJson? room)
    interfaces := ← r.withDefault "interfaces" [] (Json.listOf? room TypeRefImage.ofJson?)
    genericParams := ← r.withDefault "generic_params" [] (Json.listOf? room GenericParamImage.ofJson?)
    attributes := ← r.withDefault "attributes" [] (Json.listOf? room TypeRefImage.ofJson?)
    fields := ← r.withDefault "fields" [] (Json.listOf? room FieldImage.ofJson?)
    methods := ← r.withDefault "methods" [] (Json.listOf? room MethodImage.ofJson?)
    nested := ← r.withDefault "nested" [] types }

def TypeImage.ofJson? : (room : Nat) → Json → Option TypeImage := Json.nestOf? TypeImage.ofObject?

namespace ModuleImage

def ofJson? : (room : Nat) → Json → Option ModuleImage
  | 0, _ => none
  | room + 1, j => do
    let r ← j.record? ["name", "types"]
    return ⟨← r.required "name" Json.string?,
      ← r.withDefault "types" [] (Json.listOf? room TypeImage.ofJson?)⟩

/-- How many arrays and objects an image may nest. -/
def nestingMax : Nat := 127

/-- Reads the octets of an image's text. -/
def read? (octets : List UInt8) : Option ModuleImage :=
  (Json.ofOctets? octets).bind (ofJson? nestingMax)

end ModuleImage

end Coupling
