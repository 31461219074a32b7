/-
References to types.

A reference mentions a type by shape: a named type, a generic parameter, or a
shape built over another reference. Its names are computed from the shape, and
its identity is its key, the full name together with the scope, which is the
module that defines the type (for a generic parameter, its owner). Two
references of one key mean one type, whatever their shapes.
-/
import Coupling.Text.Cut

namespace Coupling

/-! ## Full names -/

/-- `name` inside the namespace `ns`; the empty namespace is not written. -/
def qualify (ns name : String) : String := if ns = "" then name else ns ++ "." ++ name

/-- Namespace and name of a full name. The namespace ends at the last `.` before the first `/`,
which separates a nested type from the type around it. -/
def splitFullName (full : String) : String × String :=
  let cs := full.toList
  match Text.cutLast '.' (cs.takeWhile (· != '/')) with
  | some (ns, name) => (String.ofList ns, String.ofList (name ++ cs.dropWhile (· != '/')))
  | none => ("", full)

/-! ## Keys -/

structure TypeKey where
  fullName : String
  scope : String
  deriving DecidableEq, Inhabited

namespace TypeKey

/-- Keys are ordered by full name, then by scope. -/
instance : Ord TypeKey where
  compare a b := (compare a.fullName b.fullName).then (compare a.scope b.scope)

def render (k : TypeKey) : String := "[" ++ k.scope ++ "]" ++ k.fullName

end TypeKey

/-! ## References -/

inductive TypeRef where
  | plain (ns name scope : String)
  | genericParameter (name owner : String) (constraints : List TypeRef)
  | genericInstance (element : TypeRef) (arguments : List TypeRef)
  | array (element : TypeRef) (rank : Nat)
  | byReference (element : TypeRef)
  | pointer (element : TypeRef)
  | functionPointer (scope : String)
  deriving Inhabited

namespace TypeRef

/-- The named type of a full name. -/
def parse (full scope : String) : TypeRef :=
  let (ns, name) := splitFullName full
  .plain ns name scope

/-- The scope of the types every module knows. -/
def coreScope : String := "System.Runtime"

def void : TypeRef := .plain "System" "Void" coreScope

def object : TypeRef := .plain "System" "Object" coreScope

/-- The brackets of an array: one comma less than it has dimensions. -/
def brackets (rank : Nat) : String := "[" ++ String.ofList (List.replicate (rank - 1) ',') ++ "]"

/-- Namespace of the innermost element. -/
def ns : TypeRef → String
  | .plain ns _ _ => ns
  | .genericParameter .. | .functionPointer _ => ""
  | .genericInstance e _ | .array e _ | .byReference e | .pointer e => e.ns

/-- Scope of the innermost element. -/
def scope : TypeRef → String
  | .plain _ _ scope | .functionPointer scope => scope
  | .genericParameter _ owner _ => owner
  | .genericInstance e _ | .array e _ | .byReference e | .pointer e => e.scope

mutual

def fullName : TypeRef → String
  | .plain ns name _ => qualify ns name
  | .genericParameter name _ _ => name
  | .genericInstance e args => e.fullName ++ "<" ++ ",".intercalate (fullNames args) ++ ">"
  | .array e rank => e.fullName ++ brackets rank
  | .byReference e => e.fullName ++ "&"
  | .pointer e => e.fullName ++ "*"
  | .functionPointer _ => "method*"

def fullNames : List TypeRef → List String
  | [] => []
  | r :: rs => r.fullName :: fullNames rs

end

/-- The name inside the namespace. -/
def name : TypeRef → String
  | .plain _ name _ => name
  | .genericParameter name _ _ => name
  | .genericInstance e args => e.name ++ "<" ++ ",".intercalate (fullNames args) ++ ">"
  | .array e rank => e.name ++ brackets rank
  | .byReference e => e.name ++ "&"
  | .pointer e => e.name ++ "*"
  | .functionPointer _ => "method*"

def key (r : TypeRef) : TypeKey := ⟨r.fullName, r.scope⟩

/-- The mark between a generic type's name and its number of parameters. -/
def arityMark : Char := '\x60'

/-- A type's own name: no enclosing types, no generic arity. -/
def ownName (name : String) : String :=
  let cs := name.toList
  let last := ((Text.cutLast '/' cs).map (·.2)).getD cs
  String.ofList (last.takeWhile (· != arityMark))

mutual

/-- The name for a reader: no namespaces, no enclosing types, no generic arities. -/
def shortName : TypeRef → String
  | .plain _ name _ => ownName name
  | .genericParameter name _ _ => name
  | .genericInstance e args => e.shortName ++ "<" ++ ",".intercalate (shortNames args) ++ ">"
  | .array e rank => e.shortName ++ brackets rank
  | .byReference e => e.shortName ++ "&"
  | .pointer e => e.shortName ++ "*"
  | .functionPointer _ => "method*"

def shortNames : List TypeRef → List String
  | [] => []
  | r :: rs => r.shortName :: shortNames rs

end

def isPlain : TypeRef → Bool
  | .plain .. => true
  | _ => false

def isGenericParameter : TypeRef → Bool
  | .genericParameter .. => true
  | _ => false

/-- The reference a composite shape is built over. -/
def element? : TypeRef → Option TypeRef
  | .genericInstance e _ | .array e _ | .byReference e | .pointer e => some e
  | .plain .. | .genericParameter .. | .functionPointer _ => none

/-- The key of the type a definition may be filed under: an instance stands for its open type. -/
def definitionKey : TypeRef → TypeKey
  | .genericInstance e _ => e.key
  | r => r.key

mutual

/-- The reference itself and everything it is built over, constraints and arguments included. -/
def parts : TypeRef → List TypeRef
  | r@(.plain ..) | r@(.functionPointer _) => [r]
  | r@(.genericParameter _ _ cs) => r :: partsOfList cs
  | r@(.genericInstance e args) => r :: (e.parts ++ partsOfList args)
  | r@(.array e _) | r@(.byReference e) | r@(.pointer e) => r :: e.parts

def partsOfList : List TypeRef → List TypeRef
  | [] => []
  | r :: rs => r.parts ++ partsOfList rs

end

@[simp] theorem fullNames_eq_map (rs : List TypeRef) : fullNames rs = rs.map fullName := by
  induction rs with
  | nil => rfl
  | cons r rs ih => simp [fullNames, ih]

@[simp] theorem shortNames_eq_map (rs : List TypeRef) : shortNames rs = rs.map shortName := by
  induction rs with
  | nil => rfl
  | cons r rs ih => simp [shortNames, ih]

@[simp] theorem partsOfList_eq_flatMap (rs : List TypeRef) : partsOfList rs = rs.flatMap parts := by
  induction rs with
  | nil => rfl
  | cons r rs ih => simp [partsOfList, ih]

end TypeRef

end Coupling
