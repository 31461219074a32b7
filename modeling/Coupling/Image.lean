/-
Module images.

An image describes a module in plain data: its types, their members and the
decoded bodies. A reference in it is the bare full name of a type of the image's
own module, or spells out its shape. `ModuleImage.toJson` is the form an image
is written in, every field in a fixed order.
-/
import Coupling.Json.Value

namespace Coupling

/-- A reference to a type. `own` is a type of the image's module, as is a `plain` one without a
scope. -/
inductive TypeRefImage where
  | own (name : String)
  | plain (name : String) (scope : Option String)
  | genericParameter (name owner : String) (constraints : List TypeRefImage)
  | genericInstance (element : TypeRefImage) (arguments : List TypeRefImage)
  | array (element : TypeRefImage) (rank : Nat)
  | byReference (element : TypeRefImage)
  | pointer (element : TypeRefImage)
  | functionPointer
  deriving Inhabited

structure GenericParamImage where
  name : String
  constraints : List TypeRefImage := []
  deriving Inhabited

structure FieldImage where
  name : String
  type : TypeRefImage
  deriving Inhabited

structure ParamImage where
  name : String := ""
  type : TypeRefImage
  deriving Inhabited

inductive OperandImage where
  | type (r : TypeRefImage)
  | method (declaring : TypeRefImage) (name : String) (returns : Option TypeRefImage)
      (params : List TypeRefImage)
  | field (declaring : TypeRefImage) (name : String) (type : TypeRefImage)
  | localVar (index : Nat)
  | argument (index : Nat)
  | target (offset : Nat)
  | switch (targets : List Nat)
  | int (value : Int)
  | float (value : Binary64)
  | string (value : String)
  deriving Inhabited

structure InstructionImage where
  /-- Follows from the instruction before if it is not given. -/
  offset : Option Nat := none
  op : String
  operand : Option OperandImage := none
  deriving Inhabited

/-- The role of an accessor. -/
inductive SemanticsImage where
  | getter
  | setter
  | adder
  | remover
  deriving DecidableEq, Inhabited

structure MethodImage where
  name : String
  returns : Option TypeRefImage := none
  params : List ParamImage := []
  genericParams : List GenericParamImage := []
  isStatic : Bool := false
  isAbstract : Bool := false
  semantics : Option SemanticsImage := none
  body : Option (List InstructionImage) := none
  deriving Inhabited

inductive TypeKindImage where
  | «class»
  | interface
  | struct
  deriving DecidableEq, Inhabited

structure TypeImage where
  /-- The full name, or for a nested type the name inside the type around it. -/
  name : String
  kind : TypeKindImage := .class
  isAbstract : Bool := false
  isSealed : Bool := false
  base : Option TypeRefImage := none
  interfaces : List TypeRefImage := []
  genericParams : List GenericParamImage := []
  attributes : List TypeRefImage := []
  fields : List FieldImage := []
  methods : List MethodImage := []
  nested : List TypeImage := []
  deriving Inhabited

structure ModuleImage where
  name : String
  types : List TypeImage := []
  deriving Inhabited

/-! ## Written form -/

namespace TypeRefImage

/-- A spelled-out shape: its kind, then its fields. -/
def tagged (kind : String) (fields : List (String × Json)) : Json :=
  .object (("kind", .string kind) :: fields)

mutual

def toJson : TypeRefImage → Json
  | .own name => .string name
  | .plain name scope => tagged "plain" [("name", .string name), ("scope", .ofOption .string scope)]
  | .genericParameter name owner constraints =>
    tagged "generic_parameter"
      [("name", .string name), ("owner", .string owner), ("constraints", .array (toJsons constraints))]
  | .genericInstance element arguments =>
    tagged "generic_instance"
      [("element", element.toJson), ("arguments", .array (toJsons arguments))]
  | .array element rank => tagged "array" [("element", element.toJson), ("rank", .nat rank)]
  | .byReference element => tagged "by_reference" [("element", element.toJson)]
  | .pointer element => tagged "pointer" [("element", element.toJson)]
  | .functionPointer => tagged "function_pointer" []

def toJsons : List TypeRefImage → List Json
  | [] => []
  | r :: rs => r.toJson :: toJsons rs

end

end TypeRefImage

def GenericParamImage.toJson (p : GenericParamImage) : Json :=
  .object [("name", .string p.name), ("constraints", .list TypeRefImage.toJson p.constraints)]

def FieldImage.toJson (f : FieldImage) : Json :=
  .object [("name", .string f.name), ("type", f.type.toJson)]

def ParamImage.toJson (p : ParamImage) : Json :=
  .object [("name", .string p.name), ("type", p.type.toJson)]

def OperandImage.toJson : OperandImage → Json
  | .type r => TypeRefImage.tagged "type" [("type", r.toJson)]
  | .method declaring name returns params =>
    TypeRefImage.tagged "method"
      [("declaring", declaring.toJson), ("name", .string name),
       ("returns", .ofOption TypeRefImage.toJson returns), ("params", .list TypeRefImage.toJson params)]
  | .field declaring name fieldType =>
    TypeRefImage.tagged "field"
      [("declaring", declaring.toJson), ("name", .string name), ("type", fieldType.toJson)]
  | .localVar index => TypeRefImage.tagged "local" [("index", .nat index)]
  | .argument index => TypeRefImage.tagged "argument" [("index", .nat index)]
  | .target offset => TypeRefImage.tagged "target" [("offset", .nat offset)]
  | .switch targets => TypeRefImage.tagged "switch" [("targets", .list .nat targets)]
  | .int value => TypeRefImage.tagged "int" [("value", .number (.integer value))]
  | .float value => TypeRefImage.tagged "float" [("value", .number (.real value))]
  | .string value => TypeRefImage.tagged "string" [("value", .string value)]

def InstructionImage.toJson (i : InstructionImage) : Json :=
  .object
    [("offset", .ofOption .nat i.offset), ("op", .string i.op),
     ("operand", .ofOption OperandImage.toJson i.operand)]

def SemanticsImage.text : SemanticsImage → String
  | .getter => "getter"
  | .setter => "setter"
  | .adder => "adder"
  | .remover => "remover"

def TypeKindImage.text : TypeKindImage → String
  | .class => "class"
  | .interface => "interface"
  | .struct => "struct"

def MethodImage.toJson (m : MethodImage) : Json :=
  .object
    [("name", .string m.name), ("returns", .ofOption TypeRefImage.toJson m.returns),
     ("params", .list ParamImage.toJson m.params),
     ("generic_params", .list GenericParamImage.toJson m.genericParams),
     ("static", .bool m.isStatic), ("abstract", .bool m.isAbstract),
     ("semantics", .ofOption (fun s => .string s.text) m.semantics),
     ("body", .ofOption (.list InstructionImage.toJson) m.body)]

namespace TypeImage

mutual

def toJson : TypeImage → Json
  | ⟨name, kind, isAbstract, isSealed, base, interfaces, genericParams, attributes, fields, methods,
      nested⟩ =>
    .object
      [("name", .string name), ("kind", .string kind.text), ("abstract", .bool isAbstract),
       ("sealed", .bool isSealed), ("base", .ofOption TypeRefImage.toJson base),
       ("interfaces", .list TypeRefImage.toJson interfaces),
       ("generic_params", .list GenericParamImage.toJson genericParams),
       ("attributes", .list TypeRefImage.toJson attributes),
       ("fields", .list FieldImage.toJson fields), ("methods", .list MethodImage.toJson methods),
       ("nested", .array (toJsons nested))]

def toJsons : List TypeImage → List Json
  | [] => []
  | t :: ts => t.toJson :: toJsons ts

end

end TypeImage

namespace ModuleImage

def toJson (m : ModuleImage) : Json :=
  .object [("name", .string m.name), ("types", .array (TypeImage.toJsons m.types))]

/-- The text of an image. -/
def write (m : ModuleImage) : String := m.toJson.write

end ModuleImage

end Coupling
