/-
From images to modules.

Conversion follows the image from the front and stops at the first fault: a
blank name, an instance without arguments, an array without dimensions, an
offset out of range, a full name declared twice.
-/
import Coupling.Error
import Coupling.Image.Reader
import Coupling.Text.Blank
import Coupling.TypeDef

namespace Coupling

namespace TypeRefImage

/-- A named type. -/
def named (name scope : String) : Except Malformed TypeRef :=
  if Text.isBlank name then .error .referenceWithoutName else .ok (.parse name scope)

mutual

/-- The reference meant in an image of the module `scope`. -/
def toRef (scope : String) : TypeRefImage → Except Malformed TypeRef
  | .own name => named name scope
  | .plain name other => named name (other.getD scope)
  | .genericParameter name owner constraints => do
    return .genericParameter name owner (← toRefs scope constraints)
  | .genericInstance element arguments => do
    if arguments.isEmpty then throw .instanceWithoutArguments
    return .genericInstance (← element.toRef scope) (← toRefs scope arguments)
  | .array element rank => do
    if rank = 0 then throw .arrayOfRankZero
    return .array (← element.toRef scope) rank
  | .byReference element => do return .byReference (← element.toRef scope)
  | .pointer element => do return .pointer (← element.toRef scope)
  | .functionPointer => .ok (.functionPointer scope)

def toRefs (scope : String) : List TypeRefImage → Except Malformed (List TypeRef)
  | [] => .ok []
  | r :: rs => do return (← r.toRef scope) :: (← toRefs scope rs)

end

end TypeRefImage

def GenericParamImage.toRef (scope owner : String) (p : GenericParamImage) :
    Except Malformed TypeRef := do
  return .genericParameter p.name owner (← TypeRefImage.toRefs scope p.constraints)

def OperandImage.toOperand (scope : String) : OperandImage → Except Malformed Operand
  | .type r => do return .type (← r.toRef scope)
  | .method declaring name returns params => do
    let returns ← match returns with
      | some r => r.toRef scope
      | none => pure TypeRef.void
    return .method ⟨← declaring.toRef scope, name, returns, ← TypeRefImage.toRefs scope params⟩
  | .field declaring name fieldType => do
    return .field ⟨← declaring.toRef scope, name, ← fieldType.toRef scope⟩
  | .localVar index => .ok (.localVar index)
  | .argument index => .ok (.argument index)
  | .target offset => .ok (.target offset)
  | .switch targets => .ok (.switch targets)
  | .int value => .ok (.int value)
  | .float value => .ok (.float value)
  | .string value => .ok (.string value)

namespace InstructionImage

/-- The operand meant; it is none if none is given. -/
def toOperand (scope : String) (i : InstructionImage) : Except Malformed Operand :=
  match i.operand with
  | some o => o.toOperand scope
  | none => .ok .none

/-- Decodes instructions, of which the first is at `next` unless it says otherwise. -/
def decodeFrom (scope : String) (next : Nat) :
    List InstructionImage → Except Malformed (List Instruction)
  | [] => .ok []
  | i :: is => do
    let operand ← i.toOperand scope
    let offset := i.offset.getD next
    match operand.nextOffset? offset with
    | none => throw (.offsetOverflow i.op)
    | some next => return ⟨offset, i.op, operand⟩ :: (← decodeFrom scope next is)

def decode (scope : String) (is : List InstructionImage) : Except Malformed Body := do
  return ⟨← decodeFrom scope 0 is⟩

end InstructionImage

namespace MethodImage

def semanticsFlags : SemanticsImage → MethodSemantics
  | .getter => MethodSemantics.getter
  | .setter => MethodSemantics.setter
  | .adder => MethodSemantics.adder
  | .remover => MethodSemantics.remover

/-- The modifiers a name, a role and the keywords stand for. -/
def flags (m : MethodImage) : MethodAttributes :=
  let isSpecial := m.name == MethodDef.constructorName || m.name == MethodDef.typeInitializerName
  let special : MethodAttributes :=
    if isSpecial then MethodAttributes.specialName ||| MethodAttributes.runtimeSpecialName else .none
  let static : MethodAttributes := if m.isStatic then MethodAttributes.isStatic else .none
  let role : MethodAttributes := if m.semantics.isSome then MethodAttributes.specialName else .none
  special ||| static ||| role

/-- The method with the body of the image. An abstract method's body is not looked at. -/
def withCode (scope : String) (m : MethodImage) (draft : MethodDraft) : Except Malformed MethodDraft := do
  if m.isAbstract then return draft.setAbstract
  match m.body with
  | some is => return draft.setBody (← InstructionImage.decode scope is)
  | none => return draft.withoutBody

/-- The method of an image, to be declared by the type of full name `declaring`. -/
def toDraft (scope declaring : String) (m : MethodImage) : Except Malformed MethodDraft := do
  if Text.isBlank m.name then throw (.methodWithoutName declaring)
  let returns ← match m.returns with
    | some r => r.toRef scope
    | none => pure TypeRef.void
  let params ← m.params.mapM fun p => do return (⟨p.name, ← p.type.toRef scope⟩ : Param)
  let owner := declaring ++ "::" ++ m.name
  let genericParams ← m.genericParams.mapM (·.toRef scope owner)
  m.withCode scope
    { name := m.name
      flags := m.flags
      semantics := (m.semantics.map semanticsFlags).getD .none
      returns, params, genericParams }

end MethodImage

namespace TypeImage

/-- A definition without members. -/
def start (kind : TypeKindImage) (ns name scope : String) : TypeDef :=
  match kind with
  | .class => .newClass ns name scope
  | .interface => .newInterface ns name scope
  | .struct => .newValueType ns name scope

mutual

/-- The definition of an image in the module `scope`, under the given namespace and name. -/
def toDef (scope ns name : String) : TypeImage → Except Malformed TypeDef
  | ⟨_, kind, isAbstract, isSealed, base, interfaces, genericParams, attributes, fields, methods,
      nested⟩ => do
    if Text.isBlank name then throw (.typeWithoutName scope)
    let d := start kind ns name scope
    let d := if isAbstract then d.addFlags TypeAttributes.isAbstract else d
    let d := if isSealed then d.addFlags TypeAttributes.isSealed else d
    let base ← base.mapM (·.toRef scope)
    let interfaces ← TypeRefImage.toRefs scope interfaces
    let attributes ← TypeRefImage.toRefs scope attributes
    let genericParams ← genericParams.mapM (·.toRef scope d.fullName)
    let fields ← fields.mapM fun f => do return (⟨f.name, ← f.type.toRef scope⟩ : Field)
    let methods ← methods.mapM (·.toDraft scope d.fullName)
    let nested ← toNested scope ns name nested
    return { d with
      base, interfaces, attributes, genericParams, fields, nested
      methods := methods.map (·.define d.reference) }

/-- The definitions of types nested in the type of name `outer`. -/
def toNested (scope ns outer : String) : List TypeImage → Except Malformed (List TypeDef)
  | [] => .ok []
  | t :: ts => do
    return (← t.toDef scope ns (TypeDef.nestedName outer t.name)) :: (← toNested scope ns outer ts)

end

/-- The definition of a type that is not nested, whose name is a full one. -/
def toTopDef (scope : String) (t : TypeImage) : Except Malformed TypeDef :=
  let (ns, name) := splitFullName t.name
  t.toDef scope ns name

end TypeImage

namespace ModuleImage

/-- Adds names to those declared before; the first that is among them already is a fault. -/
def declare (module : String) (seen : List String) : List String → Except Malformed (List String)
  | [] => .ok seen
  | n :: ns =>
    if seen.contains n then .error (.declaredTwice n module) else declare module (n :: seen) ns

/-- Converts types one after the other, each against the names declared so far. -/
def toDefs (module : String) (seen : List String) : List TypeImage → Except Malformed (List TypeDef)
  | [] => .ok []
  | t :: ts => do
    let d ← t.toTopDef module
    let seen ← declare module seen (d.withNested.map TypeDef.fullName)
    return d :: (← toDefs module seen ts)

def toModule (m : ModuleImage) : Except Malformed Module := do
  if Text.isBlank m.name then throw .moduleWithoutName
  return { name := m.name, types := ← toDefs m.name [] m.types }

end ModuleImage

namespace Module

/-- Reads the module of an image file. -/
def ofImage (path : String) (octets : List UInt8) : Except Error Module :=
  match ModuleImage.read? octets with
  | none => .error .notAnImage
  | some image =>
    match image.toModule with
    | .error cause => .error (.malformed cause)
    | .ok m => .ok { m with path := some path }

end Module

end Coupling
