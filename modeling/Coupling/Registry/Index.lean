/-
Types by key, by name, by base and by interface.

Types that a compiler made are not indexed. If two types share a key, the later
one is known by it; if two share a name, the earlier one is found by it; below a
base or an interface the earlier one of two with the same key stays.
-/
import Coupling.SortedMap
import Coupling.TypeDef

namespace Coupling

/-- Types listed by key. -/
abbrev TypeSet := SortedMap TypeKey TypeDef

/-- Adds a type unless one with its key is there. -/
def TypeSet.add (s : TypeSet) (d : TypeDef) : TypeSet := s.insertNew d.key d

/-- For a key the types that are filed under it. -/
abbrev TypeFile := SortedMap TypeKey TypeSet

/-- Files a type under the key of a reference; for an instance that is its element's. -/
def TypeFile.add (f : TypeFile) (r : TypeRef) (d : TypeDef) : TypeFile :=
  f.alter r.definitionKey fun s => (s.getD ∅ : TypeSet).add d

structure TypeIndex where
  types : SortedMap TypeKey TypeDef := ∅
  byName : SortedMap String TypeDef := ∅
  /-- For a base the types that derive from it. -/
  inheritance : TypeFile := ∅
  /-- For an interface the types that declare it. -/
  interfaces : TypeFile := ∅
  deriving Inhabited

namespace TypeIndex

def empty : TypeIndex := {}

def addType (x : TypeIndex) (d : TypeDef) : TypeIndex where
  types := x.types.insert d.key d
  byName := x.byName.insertNew d.fullName d
  inheritance := d.base.toList.foldl (·.add · d) x.inheritance
  interfaces := d.interfaces.foldl (·.add · d) x.interfaces

/-- Adds the types of a module. -/
def addModule (x : TypeIndex) (m : Module) : TypeIndex :=
  (m.allTypes.filter (!·.isCompilerGenerated)).foldl addType x

def addModules (x : TypeIndex) (ms : List Module) : TypeIndex := ms.foldl addModule x

/-- The index of modules, built from nothing. -/
def ofModules (ms : List Module) : TypeIndex := empty.addModules ms

end TypeIndex

end Coupling
