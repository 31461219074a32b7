/-
Reasons why one type depends on another.

A relation goes from a source type to a target type and has a kind: a base type,
a declared interface, a field, a parameter, an instruction that constructs or
calls. Two relations with the same key are the same relation. `compact` puts the
relations between the same two types together.
-/
import Coupling.Method

namespace Coupling

/-! ## Kinds -/

abbrev RelationKind := Flags
  [("CONSTRUCTION", 1), ("TYPE_REFERENCE", 2), ("MUTABLE_ACCESS", 4), ("IMMUTABLE_ACCESS", 8),
   ("UNKNOWN", 0x10), ("INTERFACE", 0x20), ("INTERFACE_IMPLEMENTATION", 0x40),
   ("METHOD_PARAMETER", 0x80), ("METHOD_GENERIC_PARAMETER", 0x100), ("METHOD_RETURN_TYPE", 0x200),
   ("BASE_TYPE", 0x400), ("NESTED_TYPE", 0x800), ("GENERIC_CONSTRAINT", 0x1000),
   ("GENERIC_DEFINITION", 0x2000), ("GENERIC_PARAMETER", 0x4000)]

namespace RelationKind

def construction : RelationKind := ⟨1⟩
def typeReference : RelationKind := ⟨2⟩
/-- A call that may change its target. -/
def mutableAccess : RelationKind := ⟨4⟩
/-- A call of a getter. -/
def immutableAccess : RelationKind := ⟨8⟩
/-- A call of a method that is not found. -/
def unknown : RelationKind := ⟨0x10⟩
def interface : RelationKind := ⟨0x20⟩
/-- From an interface to a type that declares it. -/
def interfaceImplementation : RelationKind := ⟨0x40⟩
def methodParameter : RelationKind := ⟨0x80⟩
def methodReturnType : RelationKind := ⟨0x200⟩
def baseType : RelationKind := ⟨0x400⟩
def nestedType : RelationKind := ⟨0x800⟩
def genericConstraint : RelationKind := ⟨0x1000⟩
/-- From a generic instance to its element. -/
def genericDefinition : RelationKind := ⟨0x2000⟩
/-- From a generic instance to an argument. -/
def genericParameter : RelationKind := ⟨0x4000⟩

/-- The names of a kind's bits. -/
def render (k : RelationKind) : String :=
  if k.isEmpty then "NONE" else " | ".intercalate k.names

end RelationKind

/-! ## Relations -/

/-- What tells relations apart. -/
structure RelationKey where
  source : String
  target : Option String
  targetMethod : Option String
  kind : RelationKind
  offset : Nat
  deriving DecidableEq

namespace RelationKey

def compare (a b : RelationKey) : Ordering :=
  (Ord.compare a.source b.source).then <|
  (Ord.compare a.target b.target).then <|
  (Ord.compare a.targetMethod b.targetMethod).then <|
  (Ord.compare a.kind.bits b.kind.bits).then <|
  Ord.compare a.offset b.offset

instance : Ord RelationKey := ⟨compare⟩

end RelationKey

structure Relation where
  source : TypeRef
  target : Option TypeRef
  kind : RelationKind
  /-- The method the relation was found in. -/
  sourceMethod : Option MethodDef := none
  /-- The method of the target that is used. -/
  targetMethod : Option MethodRef := none
  /-- The instruction the relation was found at. -/
  instruction : Option Instruction := none

namespace Relation

/-- The relation that a declaration states. -/
def between (source target : TypeRef) (kind : RelationKind) : Relation :=
  { source, target := some target, kind }

def inMethod (r : Relation) (m : MethodDef) : Relation := { r with sourceMethod := some m }

def withTargetMethod (r : Relation) (m : MethodRef) : Relation := { r with targetMethod := some m }

def foundAt (r : Relation) (i : Instruction) : Relation := { r with instruction := some i }

/-- The offset of the instruction, 0 for declarations. -/
def offset (r : Relation) : Nat := (r.instruction.map (·.offset)).getD 0

def key (r : Relation) : RelationKey where
  source := r.source.fullName
  target := r.target.map TypeRef.fullName
  targetMethod := r.targetMethod.map MethodRef.fullName
  kind := r.kind
  offset := r.offset

def render (r : Relation) : String :=
  "[" ++ r.source.shortName ++ "] -> [" ++ (r.target.map TypeRef.shortName).getD "?" ++ "] as " ++
    r.kind.render

/-- The kind and the place of a relation. -/
def tag (r : Relation) : String := r.kind.render ++ "@" ++ toString r.offset

/-- The full names of source and target. -/
def ends? (r : Relation) : Option (String × String) :=
  r.target.map fun t => (r.source.fullName, t.fullName)

end Relation

/-! ## Groups -/

/-- The relations from one type to another, in the order they were found. -/
structure RelationGroup where
  source : String
  target : String
  relations : List Relation

namespace RelationGroup

def ends (g : RelationGroup) : String × String := (g.source, g.target)

def weight (g : RelationGroup) : Nat := g.relations.length

/-- All kinds that occur. -/
def kinds (g : RelationGroup) : RelationKind :=
  g.relations.foldl (fun k r => k ||| r.kind) Flags.none

/-- Adds a relation between the given ends to its group, which comes last if it is new. -/
def add (ends : String × String) (r : Relation) : List RelationGroup → List RelationGroup
  | [] => [⟨ends.1, ends.2, [r]⟩]
  | g :: gs =>
    if g.ends = ends then { g with relations := g.relations ++ [r] } :: gs else g :: add ends r gs

end RelationGroup

/-- Groups relations by their ends. Groups come in the order of their first relations; relations
without a target are left out. -/
def compact (rs : List Relation) : List RelationGroup :=
  rs.foldl (fun gs r => (r.ends?.map fun ends => RelationGroup.add ends r gs).getD gs) []

end Coupling
