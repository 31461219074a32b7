/-
What types use.

From a list of references, level by level: the types of a level are looked into
in the order of their keys, their relations are reported once each, and the
targets that the type filter accepts and that were not looked into yet make the
next level. `usages` ends because a level holds a type that no earlier level
held, and all of them are in the outlook: they occur in the references given or in
modules that are loaded or known to the resolver, or are filed under interfaces.
-/
import Coupling.Registry
import Coupling.Relation

namespace Coupling

/-! ## References that occur -/

/-- The references a method makes. -/
def MethodDef.references (m : MethodDef) : List TypeRef :=
  m.params.map (·.type) ++ m.returns ::
    ((m.body.map (·.instructions)).getD []).filterMap fun i =>
      match i.operand with
      | .type t => some t
      | .method t => some t.declaring
      | _ => none

/-- The references a type makes, its own first. -/
def TypeDef.references (d : TypeDef) : List TypeRef :=
  d.reference :: d.base.toList ++ d.nested.map (·.reference) ++ d.interfaces ++ d.fields.map (·.type) ++
    d.methods.flatMap MethodDef.references

/-- All references in modules, and the references they are made of. -/
def Module.referencesIn (ms : List Module) : List TypeRef :=
  ((ms.flatMap Module.allTypes).flatMap TypeDef.references).flatMap TypeRef.parts

/-- All references in the loaded modules, and the references they are made of. -/
def Registry.references (g : Registry) : List TypeRef := Module.referencesIn g.modules

/-- All that can be looked into from the references given on, with repetitions. The resolver may know modules that
are not loaded, and types of such modules may be filed. -/
def Registry.outlook (g : Registry) (seeds : List TypeRef) : List TypeRef :=
  seeds.flatMap TypeRef.parts ++ g.references ++ Module.referencesIn g.resolver.modules.values ++
    (g.index.interfaces.values.flatMap (·.values)).map (·.reference)

namespace Usage

/-! ## Relations of one type -/

/-- Whether a target is reported: the filter accepts it, and a plain one means a definition. -/
def isReportable (o : Options) (t : TypeRef) : Resolving Bool := do
  if !o.types.accepts t then return false
  if !t.isPlain then return true
  return (← Resolver.resolve t).isSome

/-- The relations whose targets are reported. -/
def reported (o : Options) : List Relation → Resolving (List Relation)
  | [] => return []
  | r :: rs => do
    let keep ← match r.target with
      | some t => isReportable o t
      | none => pure false
    let rest ← reported o rs
    return if keep then r :: rest else rest

/-- Why an instruction uses a method, by what the method turns out to be. -/
def accessKind : Option MethodDef → RelationKind
  | none => RelationKind.unknown
  | some m =>
    if m.isConstructor then RelationKind.construction
    else if m.isGetter then RelationKind.immutableAccess
    else RelationKind.mutableAccess

/-- The relation an instruction states. -/
def ofInstruction (source : TypeRef) (i : Instruction) : Resolving (Option Relation) :=
  match i.operand with
  | .type t => return some ((Relation.between source t RelationKind.typeReference).foundAt i)
  | .method m => do
    let kind := accessKind (← Resolver.resolveMethod m)
    return some (((Relation.between source m.declaring kind).withTargetMethod m).foundAt i)
  | _ => return none

/-- The relations that instructions of a method state. -/
def ofInstructions (source : TypeRef) (m : MethodDef) : List Instruction → Resolving (List Relation)
  | [] => return []
  | i :: is => do
    let r ← ofInstruction source i
    let rest ← ofInstructions source m is
    return (r.map (·.inMethod m)).toList ++ rest

/-- The relations of a method: its parameters, what it returns, and its instructions. -/
def ofMethod (source : TypeRef) (m : MethodDef) : Resolving (List Relation) := do
  let declared (kind : RelationKind) (t : TypeRef) := (Relation.between source t kind).inMethod m
  let instructions ← ofInstructions source m ((m.body.map Body.explorable).getD [])
  return m.params.map (fun p => declared RelationKind.methodParameter p.type) ++
    declared RelationKind.methodReturnType m.returns :: instructions

def ofMethods (source : TypeRef) : List MethodDef → Resolving (List Relation)
  | [] => return []
  | m :: ms => do
    let first ← ofMethod source m
    let rest ← ofMethods source ms
    return first ++ rest

/-- The relations that a type's declaration states. -/
def ofDeclaration (g : Registry) (d : TypeDef) : List Relation :=
  let related (kind : RelationKind) (t : TypeRef) := Relation.between d.reference t kind
  d.base.toList.map (related RelationKind.baseType) ++
  d.nested.map (related RelationKind.nestedType ·.reference) ++
  d.interfaces.map (related RelationKind.interface) ++
  (g.implementersOf d.key).map (related RelationKind.interfaceImplementation ·.reference) ++
  d.fields.map (related RelationKind.typeReference ·.type)

/-- The relations of a type that are reported. Only methods with a body that the method filter accepts
are looked into. -/
def ofType (g : Registry) (o : Options) (d : TypeDef) : Resolving (List Relation) := do
  let methods := d.methods.filter fun m => m.hasBody && o.methods.accepts m
  let found ← ofMethods d.reference methods
  reported o (ofDeclaration g d ++ found)

/-! ## Levels -/

/-- The relations of a reference, and where to look next. -/
structure Expansion where
  relations : List Relation := []
  successors : List TypeRef := []

/-- What is used is where to look next. -/
def Expansion.ofRelations (rs : List Relation) : Expansion := ⟨rs, rs.filterMap (·.target)⟩

/-- Looks into a reference. A constructed type is used through what it is made of, and arrays and
by-reference types stand for their elements. -/
def expand (g : Registry) (o : Options) (r : TypeRef) : Resolving Expansion :=
  match r with
  | .genericParameter _ _ constraints => do
    return .ofRelations (← reported o
      (constraints.map (Relation.between r · RelationKind.genericConstraint)))
  | .genericInstance element arguments => do
    return .ofRelations (← reported o
      (Relation.between r element RelationKind.genericDefinition ::
        arguments.map (Relation.between r · RelationKind.genericParameter)))
  | .array element _ | .byReference element => return ⟨[], [element]⟩
  | .pointer _ | .functionPointer _ => return {}
  | .plain .. => do
    match ← Resolver.resolve r with
    | some d => return .ofRelations (← ofType g o d)
    | none => return {}

/-- References by key. -/
abbrev RefSet := SortedMap TypeKey TypeRef

/-- The references given; of two with the same key the later one. -/
def seedSet (seeds : List TypeRef) : RefSet := seeds.foldl (fun s r => s.insert r.key r) ∅

/-- Adds references whose keys are not there. -/
def addAll (s : RefSet) (rs : List TypeRef) : RefSet := rs.foldl (fun s r => s.insertNew r.key r) s

/-- What was found so far. -/
structure Progress where
  /-- In the order they were found. -/
  relations : List Relation := []
  seen : List RelationKey := []
  processed : List TypeKey := []

/-- Looks into the references of a level one after the other. -/
def expandAll (g : Registry) (o : Options) :
    List TypeRef → Progress → RefSet → Resolving (Progress × RefSet)
  | [], p, successors => return (p, successors)
  | r :: rs, p, successors => do
    let e ← expand g o r
    let (new, seen) := Search.unmet Relation.key p.seen e.relations
    expandAll g o rs { p with relations := p.relations ++ new, seen } (addAll successors e.successors)

/-- The references of the next level. -/
def nextLevel (o : Options) (p : Progress) (successors : RefSet) : RefSet :=
  successors.filter fun k r => !p.processed.contains k && o.types.accepts r

/-- Level after level, `levels` at most, of which `level` is the first. -/
def run (g : Registry) (o : Options) : (levels level : Nat) → RefSet → Progress → Resolving Progress
  | 0, _, _, p => return p
  | levels + 1, level, frontier, p =>
    if frontier.isEmpty then return p
    else do
      let (q, successors) ← expandAll g o frontier.values p ∅
      let q := { q with processed := frontier.keys ++ q.processed }
      Logged.log (.usageLevel level frontier.size (q.relations.length - p.relations.length))
      run g o levels (level + 1) (nextLevel o q successors) q

end Usage

namespace Registry

/-- The relations found from the references given on. -/
def findUsages (g : Registry) (o : Options) (seeds : List TypeRef) : Resolving (List Relation) := do
  let levels := (g.outlook seeds).length
  return (← Usage.run g o levels 0 (Usage.seedSet seeds) {}).relations

/-- The relations found from the references given on. -/
def usages (g : Registry) (o : Options) (seeds : List TypeRef) : Logged (List Relation × Registry) :=
  g.ask (g.findUsages o seeds)

/-- The relations of one type. -/
def usagesOf (g : Registry) (o : Options) (d : TypeDef) : Logged (List Relation × Registry) :=
  g.ask (Usage.ofType g o d)

end Registry

end Coupling
