/-
The modules that are loaded, and what is known of their types.

Modules are told apart by name, and the first of a name stays. A path is read
once: what was loaded from it stays, and what failed is not tried again.
-/
import Coupling.Filter
import Coupling.Registry.Index
import Coupling.Resolver
import Coupling.Search
import Coupling.Source

namespace Coupling

structure Registry where
  /-- In the order they were added. -/
  modules : List Module := []
  loadedPaths : PathSet := ∅
  failedPaths : PathSet := ∅
  index : TypeIndex := {}
  resolver : Resolver := {}
  deriving Inhabited

namespace Registry

def empty : Registry := {}

/-! ## Modules -/

def containsModule (g : Registry) (name : String) : Bool := g.modules.any (·.name == name)

/-- Takes a module in, its types not yet indexed, unless its name is known. -/
def register (g : Registry) (m : Module) : Option Registry :=
  if g.containsModule m.name then none
  else some { g with modules := g.modules ++ [m], resolver := g.resolver.register m }

/-- Indexes the types of modules. -/
def refresh (g : Registry) (ms : List Module) : Registry := { g with index := g.index.addModules ms }

/-- Indexes the types of all modules anew. -/
def refreshAll (g : Registry) : Registry :=
  { g with index := TypeIndex.ofModules g.modules, resolver := g.resolver.clearCache }

/-- Adds a module unless its name is known. -/
def add (g : Registry) (m : Module) : Option Registry := (g.register m).map (·.refresh [m])

/-- Takes in what was read from a path, and lists the module if it is new. -/
def takeCandidate (g : Registry) (added : List Module) (c : LoadCandidate) :
    Logged (Registry × List Module) :=
  match c.module with
  | .error _ => return ({ g with failedPaths := PathSet.add g.failedPaths c.path }, added)
  | .ok m =>
    let g := { g with loadedPaths := PathSet.add g.loadedPaths c.path }
    match g.register m with
    | some g => return (g, added ++ [m])
    | none => do
      Logged.log (.alreadyLoaded m.name c.path)
      return (g, added)

/-- Takes in candidates one by one. -/
def takeCandidates (g : Registry) (added : List Module) :
    List LoadCandidate → Logged (Registry × List Module)
  | [] => return (g, added)
  | c :: cs => do
    let (g, added) ← g.takeCandidate added c
    takeCandidates g added cs

/-- The paths that were neither loaded nor failed before. -/
def newPaths (g : Registry) (paths : List String) : List String :=
  paths.filter fun p => !PathSet.contains g.failedPaths p && !PathSet.contains g.loadedPaths p

/-- Loads the modules of a source that are new, and gives them. -/
def load (g : Registry) (source : ModuleSource) (path : String) (masks : List String) :
    Logged (Except Error (List Module × Registry)) := do
  match ← source.candidates path masks with
  | .error e => return .error e
  | .ok paths =>
    let (g, added) ← g.takeCandidates [] (source.load (g.newPaths paths))
    let g := g.refresh added
    Logged.log (.loaded added.length path g.index.types.size)
    return .ok (added, g)

/-! ## Types -/

/-- The indexed types, by key. -/
def types (g : Registry) : List TypeDef := g.index.types.values

def typeCount (g : Registry) : Nat := g.index.types.size

def findType (g : Registry) (fullName : String) : Option TypeDef := g.index.byName.get? fullName

/-- The types whose base has the key. -/
def derivedFrom (g : Registry) (k : TypeKey) : List TypeDef :=
  ((g.index.inheritance.get? k).map (·.values)).getD []

/-- The types that declare the interface with the key. -/
def implementersOf (g : Registry) (k : TypeKey) : List TypeDef :=
  ((g.index.interfaces.get? k).map (·.values)).getD []

/-- How many entries a file of types has. -/
def entryCount (f : TypeFile) : Nat := f.values.foldl (fun n s => n + s.size) 0

/-- The types given and all that derive from them, nearest first. -/
def inheritedFrom (g : Registry) (bases : List TypeDef) : List TypeDef :=
  Search.breadthFirst TypeDef.key (fun d => g.derivedFrom d.key)
    (bases.length + entryCount g.index.inheritance) bases

/-- The types, no interfaces, that declare an interface or one that stands for it. -/
def implementersBelow (g : Registry) (i : TypeDef) : List TypeDef :=
  (Search.breadthFirst TypeDef.key (fun d => if d.isInterface then g.implementersOf d.key else [])
    (1 + entryCount g.index.interfaces) [i]).filter (!·.isInterface)

/-- Where entry points derive from: for an interface the types below it, for any other type itself. -/
def rootsOf (g : Registry) (d : TypeDef) : List TypeDef :=
  if d.isInterface then g.implementersBelow d else [d]

/-- The concrete types that derive from the roots of types whose full name is chosen. -/
def entryPointsWhere (g : Registry) (chosen : String → Bool) : List TypeDef :=
  let roots : TypeSet :=
    ((g.types.filter fun d => chosen d.fullName).flatMap g.rootsOf).foldl TypeSet.add ∅
  (g.inheritedFrom roots.values).filter (·.isConcrete)

/-- The concrete types that derive from the roots of types whose full name some pattern matches. -/
def entryPoints (g : Registry) (patterns : List String) : Except Error (List TypeDef) := do
  let rs ← patterns.mapM Regex.compile
  return g.entryPointsWhere fun name => rs.any (·.isMatch name)

/-! ## References -/

/-- Asks the registry's resolver. -/
def ask {α : Type} (g : Registry) (q : Resolving α) : Logged (α × Registry) := do
  let (a, s) ← q.run g.resolver
  return (a, { g with resolver := s })

end Registry

end Coupling
