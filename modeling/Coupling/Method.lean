/-
Methods and what their bodies hold.

An instruction has an offset, a mnemonic and an operand whose tokens are already
references. It takes one octet and its operand's size; offsets fit 32 bits. A
method definition has a signature and, unless it is abstract or provided by the
runtime, a body; a method reference has the signature alone.
-/
import Coupling.Flags
import Coupling.Number.Layout
import Coupling.Text.Quoted
import Coupling.TypeRef

namespace Coupling

/-! ## Flags -/

abbrev MethodAttributes := Flags
  [("STATIC", 0x10), ("FINAL", 0x20), ("VIRTUAL", 0x40), ("ABSTRACT", 0x400),
   ("SPECIAL_NAME", 0x800), ("RT_SPECIAL_NAME", 0x1000)]

namespace MethodAttributes

def isStatic : MethodAttributes := ⟨0x10⟩
def isVirtual : MethodAttributes := ⟨0x40⟩
def isAbstract : MethodAttributes := ⟨0x400⟩
def specialName : MethodAttributes := ⟨0x800⟩
def runtimeSpecialName : MethodAttributes := ⟨0x1000⟩

end MethodAttributes

/-- The role a method plays for a property or an event. -/
abbrev MethodSemantics := Flags
  [("SETTER", 1), ("GETTER", 2), ("OTHER", 4), ("ADDER", 8), ("REMOVER", 0x10), ("FIRE", 0x20)]

namespace MethodSemantics

def setter : MethodSemantics := ⟨1⟩
def getter : MethodSemantics := ⟨2⟩
def adder : MethodSemantics := ⟨8⟩
def remover : MethodSemantics := ⟨0x10⟩

end MethodSemantics

/-! ## References -/

/-- A method's text: return type, declaring type, name and parameter types. -/
def signature (returns declaring : TypeRef) (name : String) (params : List TypeRef) : String :=
  returns.fullName ++ " " ++ declaring.fullName ++ "::" ++ name ++
    "(" ++ ",".intercalate (params.map TypeRef.fullName) ++ ")"

structure MethodRef where
  declaring : TypeRef
  name : String
  returns : TypeRef := TypeRef.void
  params : List TypeRef := []
  deriving Inhabited

namespace MethodRef

def fullName (m : MethodRef) : String := signature m.returns m.declaring m.name m.params

def paramNames (m : MethodRef) : List String := m.params.map TypeRef.fullName

end MethodRef

structure FieldRef where
  declaring : TypeRef
  name : String
  type : TypeRef
  deriving Inhabited

/-! ## Instructions -/

inductive Operand where
  | none
  | type (r : TypeRef)
  | method (m : MethodRef)
  | field (f : FieldRef)
  | localVar (index : Nat)
  | argument (index : Nat)
  | target (offset : Nat)
  | switch (targets : List Nat)
  | int (value : Int)
  | float (value : Binary64)
  | string (value : String)
  deriving Inhabited

/-- The largest offset. -/
def offsetMax : Nat := 0xFFFFFFFF

/-- A number, if it fits 32 bits. -/
def word? (n : Nat) : Option Nat := if n ≤ offsetMax then some n else none

namespace Operand

/-- Octets an operand takes, if they can be counted in 32 bits. A table of targets begins with
their number. -/
def size? : Operand → Option Nat
  | .none => some 0
  | .localVar _ | .argument _ => some 2
  | .int _ | .float _ => some 8
  | .switch targets => do
    let count ← word? targets.length
    let table ← word? (count * 4)
    word? (table + 4)
  | .type _ | .method _ | .field _ | .target _ | .string _ => some 4

/-- The offset after an instruction with this operand at `offset`, if there is one. -/
def nextOffset? (o : Operand) (offset : Nat) : Option Nat := do
  let start ← word? (offset + 1)
  let size ← o.size?
  word? (start + size)

def label (offset : Nat) : String := "IL_" ++ Text.hex4 offset

/-- The operand after the mnemonic. -/
def render : Operand → String
  | .none => ""
  | .type r => " " ++ r.fullName
  | .method m => " " ++ m.fullName
  | .field f => " " ++ f.type.fullName ++ " " ++ f.declaring.fullName ++ "::" ++ f.name
  | .localVar i | .argument i => " " ++ toString i
  | .target t => " " ++ label t
  | .switch ts => " (" ++ ",".intercalate (ts.map label) ++ ")"
  | .int v => " " ++ toString v
  | .float x => " " ++ x.render Layout.plain
  | .string s => " " ++ Text.quote s

end Operand

structure Instruction where
  offset : Nat
  mnemonic : String
  operand : Operand := .none
  deriving Inhabited

namespace Instruction

/-- Type and method operands lead to further types. -/
def isExplorable (i : Instruction) : Bool :=
  match i.operand with
  | .type _ | .method _ => true
  | _ => false

def render (i : Instruction) : String :=
  Operand.label i.offset ++ ": " ++ i.mnemonic ++ i.operand.render

end Instruction

structure Body where
  instructions : List Instruction := []
  deriving Inhabited

namespace Body

/-- Places operations one after the other from `offset` on. An offset that would be too large is
the largest there is. -/
def place (offset : Nat) : List (String × Operand) → List Instruction
  | [] => []
  | (mnemonic, operand) :: ops =>
    ⟨offset, mnemonic, operand⟩ :: place ((operand.nextOffset? offset).getD offsetMax) ops

def ofOperations (ops : List (String × Operand)) : Body := ⟨place 0 ops⟩

def explorable (b : Body) : List Instruction := b.instructions.filter Instruction.isExplorable

end Body

/-! ## Definitions -/

structure Param where
  name : String
  type : TypeRef
  deriving Inhabited

structure MethodDef where
  name : String
  declaring : TypeRef
  flags : MethodAttributes := .none
  semantics : MethodSemantics := .none
  returns : TypeRef := TypeRef.void
  params : List Param := []
  genericParams : List TypeRef := []
  body : Option Body := none
  deriving Inhabited

namespace MethodDef

def constructorName : String := ".ctor"

def typeInitializerName : String := ".cctor"

def paramTypes (m : MethodDef) : List TypeRef := m.params.map Param.type

def fullName (m : MethodDef) : String := signature m.returns m.declaring m.name m.paramTypes

/-- Full names of the parameter types. -/
def paramNames (m : MethodDef) : List String := m.paramTypes.map TypeRef.fullName

def isConstructor (m : MethodDef) : Bool := m.name == constructorName || m.name == typeInitializerName

def isGetter (m : MethodDef) : Bool := m.semantics.contains MethodSemantics.getter

def isSetter (m : MethodDef) : Bool := m.semantics.contains MethodSemantics.setter

def isStatic (m : MethodDef) : Bool := m.flags.contains MethodAttributes.isStatic

def isAbstract (m : MethodDef) : Bool := m.flags.contains MethodAttributes.isAbstract

def hasBody (m : MethodDef) : Bool := m.body.isSome

/-- The reference that names the method. -/
def reference (m : MethodDef) : MethodRef := ⟨m.declaring, m.name, m.returns, m.paramTypes⟩

end MethodDef

/-! ## Drafts -/

/-- A method under construction, before its declaring type is known. Operations are placed when
the method is defined, unless decoded instructions were given. -/
structure MethodDraft where
  name : String
  flags : MethodAttributes := .none
  semantics : MethodSemantics := .none
  returns : TypeRef := TypeRef.void
  params : List Param := []
  genericParams : List TypeRef := []
  operations : List (String × Operand) := []
  decoded : Option Body := none
  hasBody : Bool := true
  deriving Inhabited

namespace MethodDraft

def addFlags (d : MethodDraft) (flags : MethodAttributes) : MethodDraft :=
  { d with flags := d.flags ||| flags }

def addSemantics (d : MethodDraft) (semantics : MethodSemantics) : MethodDraft :=
  { d with semantics := d.semantics ||| semantics }

/-- An abstract method has no body. -/
def setAbstract (d : MethodDraft) : MethodDraft :=
  { d.addFlags (MethodAttributes.isAbstract ||| MethodAttributes.isVirtual) with hasBody := false }

def setReturns (d : MethodDraft) (r : TypeRef) : MethodDraft := { d with returns := r }

def addParam (d : MethodDraft) (name : String) (type : TypeRef) : MethodDraft :=
  { d with params := d.params ++ [⟨name, type⟩] }

def addGenericParam (d : MethodDraft) (p : TypeRef) : MethodDraft :=
  { d with genericParams := d.genericParams ++ [p] }

/-- Decoded instructions take the place of the operations. -/
def setBody (d : MethodDraft) (b : Body) : MethodDraft := { d with decoded := some b, hasBody := true }

def withoutBody (d : MethodDraft) : MethodDraft := { d with hasBody := false }

def addOperation (d : MethodDraft) (mnemonic : String) (operand : Operand) : MethodDraft :=
  { d with operations := d.operations ++ [(mnemonic, operand)] }

def define (d : MethodDraft) (declaring : TypeRef) : MethodDef where
  name := d.name
  declaring := declaring
  flags := d.flags
  semantics := d.semantics
  returns := d.returns
  params := d.params
  genericParams := d.genericParams
  body := if d.hasBody then some (d.decoded.getD (.ofOperations d.operations)) else none

/-- The draft of an instance constructor. -/
def constructor : MethodDraft :=
  { name := MethodDef.constructorName
    flags := MethodAttributes.specialName ||| MethodAttributes.runtimeSpecialName }

/-- The draft of a property's getter. -/
def getter (property : String) (type : TypeRef) : MethodDraft :=
  { name := "get_" ++ property
    flags := MethodAttributes.specialName
    semantics := MethodSemantics.getter
    returns := type }

end MethodDraft

end Coupling
