/-
Finding the definitions that references mean.

A plain reference means a type of the module named by its scope; a generic
instance means the definition of its element, if its arguments are known. Every
answer is kept, also that there is none, so a question has one answer until the
modules change. Instances are followed `depthMax` deep.
-/
import Coupling.Log
import Coupling.SortedMap
import Coupling.TypeDef

namespace Coupling

/-- What tells questions about methods apart: declaring type, name and parameter types. -/
structure MethodKey where
  declaring : TypeKey
  name : String
  params : List String
  deriving DecidableEq

namespace MethodKey

def compare (a b : MethodKey) : Ordering :=
  (Ord.compare a.declaring b.declaring).then <|
  (Ord.compare a.name b.name).then <|
  Ord.compare a.params b.params

instance : Ord MethodKey := ⟨compare⟩

end MethodKey

def MethodRef.key (m : MethodRef) : MethodKey := ⟨m.declaring.key, m.name, m.paramNames⟩

/-- The modules by name, and the answers given so far. -/
structure Resolver where
  modules : SortedMap String Module := ∅
  types : SortedMap TypeKey (Option TypeDef) := ∅
  methods : SortedMap MethodKey (Option MethodDef) := ∅
  deriving Inhabited

/-- A computation that asks a resolver. -/
abbrev Resolving := StateT Resolver Logged

namespace Resolver

/-- Forgets all answers. -/
def clearCache (s : Resolver) : Resolver := { s with types := ∅, methods := ∅ }

/-- Makes a module known under its name, in place of an earlier one. -/
def register (s : Resolver) (m : Module) : Resolver :=
  { s with modules := s.modules.insert m.name m }.clearCache

/-- No modules and no answers. -/
def empty : Resolver := {}

def cachedTypes (s : Resolver) : Nat := s.types.size

/-- How deep generic instances are followed. -/
def depthMax : Nat := 64

/-- The definition a plain reference means. -/
def definition? (s : Resolver) (scope fullName : String) : Option TypeDef :=
  (s.modules.get? scope).bind (·.findType fullName)

/-- Keeps an answer, unless there is one already, and gives the one that is kept. -/
def keepType (key : TypeKey) (answer : Option TypeDef) (s : Resolver) : Option TypeDef × Resolver :=
  match s.types.get? key with
  | some kept => (kept, s)
  | none => (answer, { s with types := s.types.insert key answer })

def keepMethod (key : MethodKey) (answer : Option MethodDef) (s : Resolver) :
    Option MethodDef × Resolver :=
  match s.methods.get? key with
  | some kept => (kept, s)
  | none => (answer, { s with methods := s.methods.insert key answer })

/-- The kept answer for a key, or else what `find` says, which is then kept. -/
def rememberType (key : TypeKey) (find : Resolving (Option TypeDef)) : Resolving (Option TypeDef) := do
  match (← get).types.get? key with
  | some kept => return kept
  | none =>
    let answer ← find
    if answer.isNone then Logged.log (.unresolvedType key)
    modifyGet (keepType key answer)

mutual

/-- The definition a reference means, `depth` instances deep. -/
def resolveAt (depth : Nat) : TypeRef → Resolving (Option TypeDef)
  | .plain ns name scope =>
    let r := TypeRef.plain ns name scope
    rememberType r.key do
      let s ← get
      return if depthMax ≤ depth then none else s.definition? scope r.fullName
  | .genericInstance element arguments =>
    rememberType (TypeRef.genericInstance element arguments).key do
      if depthMax ≤ depth then return none
      match ← resolveAt (depth + 1) element with
      | none => return none
      | some d => return if ← resolveAll (depth + 1) arguments then some d else none
  | .genericParameter name owner constraints =>
    rememberType (TypeRef.genericParameter name owner constraints).key (pure none)
  | .array element rank => rememberType (TypeRef.array element rank).key (pure none)
  | .byReference element => rememberType (TypeRef.byReference element).key (pure none)
  | .pointer element => rememberType (TypeRef.pointer element).key (pure none)
  | .functionPointer scope => rememberType (TypeRef.functionPointer scope).key (pure none)

/-- Whether each of the arguments means a definition or is a generic parameter. Those after one that
does not are not looked at. -/
def resolveAll (depth : Nat) : List TypeRef → Resolving Bool
  | [] => return true
  | r :: rs => do
    if r.isGenericParameter then resolveAll depth rs
    else
      match ← resolveAt depth r with
      | none => return false
      | some _ => resolveAll depth rs

end

/-- The definition a reference means. -/
def resolve (r : TypeRef) : Resolving (Option TypeDef) := resolveAt 0 r

/-- The method of a type that a reference means: the first of its name with the same parameter types,
or else the only one of its name with as many parameters. -/
def methodOf? (d : TypeDef) (m : MethodRef) : Option MethodDef :=
  let candidates := d.methods.filter (·.name = m.name)
  match candidates.find? (·.paramNames = m.paramNames) with
  | some exact => some exact
  | none =>
    match candidates.filter (·.params.length = m.params.length) with
    | [only] => some only
    | _ => none

/-- The method a reference means. -/
def resolveMethod (m : MethodRef) : Resolving (Option MethodDef) := do
  match (← get).methods.get? m.key with
  | some kept => return kept
  | none =>
    let answer := (← resolve m.declaring).bind (methodOf? · m)
    if answer.isNone then Logged.log (.unresolvedMethod m.fullName)
    modifyGet (keepMethod m.key answer)

end Resolver

end Coupling
