/-
Type definitions and modules.

A definition is what a module declares: modifiers, base, interfaces, members
and nested types. Its plain reference is its identity. A module finds its types,
nested ones included, by full name; of two that share one, the last is found.
-/
import Coupling.Method

namespace Coupling

abbrev TypeAttributes := Flags
  [("PUBLIC", 1), ("INTERFACE", 0x20), ("ABSTRACT", 0x80), ("SEALED", 0x100),
   ("VALUE_TYPE", 0x1000000)]

namespace TypeAttributes

def isPublic : TypeAttributes := ⟨1⟩
def isInterface : TypeAttributes := ⟨0x20⟩
def isAbstract : TypeAttributes := ⟨0x80⟩
def isSealed : TypeAttributes := ⟨0x100⟩
def isValueType : TypeAttributes := ⟨0x1000000⟩

end TypeAttributes

structure Field where
  name : String
  type : TypeRef
  deriving Inhabited

structure TypeDef where
  ns : String
  name : String
  scope : String
  flags : TypeAttributes := TypeAttributes.isPublic
  base : Option TypeRef := none
  interfaces : List TypeRef := []
  nested : List TypeDef := []
  fields : List Field := []
  methods : List MethodDef := []
  genericParams : List TypeRef := []
  attributes : List TypeRef := []
  deriving Inhabited

namespace TypeDef

/-- The plain reference that names the definition. -/
def reference (d : TypeDef) : TypeRef := .plain d.ns d.name d.scope

def fullName (d : TypeDef) : String := d.reference.fullName

def key (d : TypeDef) : TypeKey := d.reference.key

def isInterface (d : TypeDef) : Bool := d.flags.contains TypeAttributes.isInterface

def isAbstract (d : TypeDef) : Bool := d.flags.contains TypeAttributes.isAbstract

def isClass (d : TypeDef) : Bool := !d.isInterface

/-- Whether instances can be made. -/
def isConcrete (d : TypeDef) : Bool := !d.isInterface && !d.isAbstract

/-- The attribute of types that no source declares. -/
def compilerGeneratedAttribute : String :=
  "System.Runtime.CompilerServices.CompilerGeneratedAttribute"

def isCompilerGenerated (d : TypeDef) : Bool :=
  d.attributes.any (·.fullName == compilerGeneratedAttribute)

mutual

/-- The definition and all types nested in it, each before its own nested types. -/
def withNested : TypeDef → List TypeDef
  | d@{ nested := ds, .. } => d :: withNestedAll ds

def withNestedAll : List TypeDef → List TypeDef
  | [] => []
  | d :: ds => d.withNested ++ withNestedAll ds

end

/-! ## Construction -/

def newClass (ns name scope : String) : TypeDef := { ns, name, scope }

def newInterface (ns name scope : String) : TypeDef :=
  { ns, name, scope
    flags := TypeAttributes.isPublic ||| TypeAttributes.isInterface ||| TypeAttributes.isAbstract }

def newValueType (ns name scope : String) : TypeDef :=
  { ns, name, scope
    flags := TypeAttributes.isPublic ||| TypeAttributes.isValueType ||| TypeAttributes.isSealed }

def addFlags (d : TypeDef) (flags : TypeAttributes) : TypeDef := { d with flags := d.flags ||| flags }

def setBase (d : TypeDef) (base : TypeRef) : TypeDef := { d with base := some base }

def addInterface (d : TypeDef) (i : TypeRef) : TypeDef := { d with interfaces := d.interfaces ++ [i] }

def addField (d : TypeDef) (name : String) (type : TypeRef) : TypeDef :=
  { d with fields := d.fields ++ [⟨name, type⟩] }

def addAttribute (d : TypeDef) (a : TypeRef) : TypeDef := { d with attributes := d.attributes ++ [a] }

def addGenericParam (d : TypeDef) (p : TypeRef) : TypeDef :=
  { d with genericParams := d.genericParams ++ [p] }

def addMethod (d : TypeDef) (m : MethodDraft) : TypeDef :=
  { d with methods := d.methods ++ [m.define d.reference] }

def addNested (d inner : TypeDef) : TypeDef := { d with nested := d.nested ++ [inner] }

/-- The name of a type nested in a type of name `outer`. -/
def nestedName (outer inner : String) : String := outer ++ "/" ++ inner

end TypeDef

/-! ## Modules -/

structure Module where
  name : String
  /-- The file the module was read from. -/
  path : Option String := none
  /-- The types that are not nested in another. -/
  types : List TypeDef
  deriving Inhabited

namespace Module

/-- All types, nested ones after the type around them. -/
def allTypes (m : Module) : List TypeDef := TypeDef.withNestedAll m.types

/-- The type of a full name; the last one if several share it. -/
def findType (m : Module) (fullName : String) : Option TypeDef :=
  m.allTypes.reverse.find? (·.fullName == fullName)

/-- The number of full names the types have. -/
def typeCount (m : Module) : Nat := (m.allTypes.map TypeDef.fullName).eraseDups.length

end Module

end Coupling
