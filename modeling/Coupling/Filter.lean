/-
What an analysis looks at.

A type filter decides which targets of relations are reported and which types
are looked into further; a method filter decides which methods are looked into.
-/
import Coupling.Error
import Coupling.Pattern.Parser
import Coupling.TypeDef

namespace Coupling

/-- The expression of a pattern. -/
def Regex.compile (pattern : String) : Except Error Regex :=
  match Regex.parse? pattern with
  | some r => .ok r
  | none => .error .badPattern

/-- Whether a namespace is `parent` or lies below it. -/
def inNamespace (ns parent : String) : Bool :=
  match Text.after? parent.toList ns.toList with
  | some [] => true
  | some (c :: _) => c == '.'
  | none => false

/-! ## Types -/

structure TypeFilter where
  accepts : TypeRef → Bool

namespace TypeFilter

def all : TypeFilter := ⟨fun _ => true⟩

/-- Types in none of the namespaces, nor below them. -/
def excludingNamespaces (namespaces : List String) : TypeFilter :=
  ⟨fun t => !namespaces.any (inNamespace t.ns)⟩

/-- Types in one of the namespaces or below it. -/
def includingNamespaces (namespaces : List String) : TypeFilter :=
  ⟨fun t => namespaces.any (inNamespace t.ns)⟩

/-- Types whose full name matches. -/
def matching (pattern : String) : Except Error TypeFilter := do
  let r ← Regex.compile pattern
  return ⟨fun t => r.isMatch t.fullName⟩

/-- Types whose full name does not match. -/
def excluding (pattern : String) : Except Error TypeFilter := do
  let r ← Regex.compile pattern
  return ⟨fun t => !r.isMatch t.fullName⟩

/-- Types that both filters accept. -/
def and (f g : TypeFilter) : TypeFilter := ⟨fun t => f.accepts t && g.accepts t⟩

/-- Namespaces of the base class library. -/
def standardNamespaces : List String := ["System", "Microsoft"]

/-- All but the base class library. -/
def standard : TypeFilter := excludingNamespaces standardNamespaces

instance : Inhabited TypeFilter := ⟨standard⟩

/-- A filter is a predicate, of which no more is shown than what it is. -/
def render (_ : TypeFilter) : String := "TypeFilter"

end TypeFilter

/-! ## Methods -/

structure MethodFilter where
  accepts : MethodDef → Bool

namespace MethodFilter

def all : MethodFilter := ⟨fun _ => true⟩

def none : MethodFilter := ⟨fun _ => false⟩

/-- Methods whose name matches. -/
def matching (pattern : String) : Except Error MethodFilter := do
  let r ← Regex.compile pattern
  return ⟨fun m => r.isMatch m.name⟩

instance : Inhabited MethodFilter := ⟨all⟩

def render (_ : MethodFilter) : String := "MethodFilter"

end MethodFilter

/-! ## Options -/

structure Options where
  types : TypeFilter := TypeFilter.standard
  methods : MethodFilter := MethodFilter.all
  deriving Inhabited

/-- Leaves out the namespaces as well. -/
def Options.excludeNamespaces (o : Options) (namespaces : List String) : Options :=
  { o with types := o.types.and (TypeFilter.excludingNamespaces namespaces) }

end Coupling
