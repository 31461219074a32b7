/-
What a registry finds is what its modules declare.

A module that was made from an image declares each full name once and has every
definition under its own name (`proper_of_toModule`). In a registry of such modules,
however it came about, definitions of one key are one definition, so that all views
of a registry tell of the same definitions (`Exact`): the list by key has all that
no compiler generated, the maps of bases and of interfaces have each of them under
what it declares, a full name finds the one of the first module that has it, and a
reference to a definition, generated or not, means that definition.
-/
import Coupling.Proofs.Image.Naming
import Coupling.Proofs.Registry.Lookups

namespace Coupling

open Resolver Resolving

/-! ## Modules of images -/

namespace ModuleImage

theorem scope_of_toDefs {module : String} {ts : List TypeImage} {ds : List TypeDef}
    (h : List.Forall₂ (fun t d => t.toTopDef module = .ok d) ts ds) :
    ∀ e ∈ TypeDef.withNestedAll ds, e.scope = module := by
  induction h with
  | nil => simp [TypeDef.withNestedAll]
  | cons hd _ ih =>
    intro e he
    rw [TypeDef.withNestedAll, List.mem_append] at he
    cases he with
    | inl he => exact (TypeImage.ns_of_mem_withNested _ hd e he).2
    | inr he => exact ih e he

/-- **Modules that are made from images are proper.** -/
theorem proper_of_toModule {m : ModuleImage} {module : Module} (h : m.toModule = .ok module) : module.Proper := by
  obtain ⟨hname, hdefs⟩ := toModule_eq_ok h
  refine ⟨nodup_fullNames h, fun d hd => ?_⟩
  rw [hname]
  exact scope_of_toDefs (toDefs_eq_ok hdefs) d hd

end ModuleImage

/-! ## Lists by key -/

/-- A list has the definitions with a property, all of them and no others, in the order of their keys. -/
structure Enumerates (ds : List TypeDef) (p : TypeDef → Prop) : Prop where
  ordered : ds.Pairwise fun d e => compare d.key e.key = .lt
  mem : ∀ d, d ∈ ds ↔ p d

theorem enumerates_values {m : SortedMap TypeKey TypeDef} {p : TypeDef → Prop} (h : m.Sorted)
    (hkeyed : ∀ k d, m.get? k = some d → d.key = k) (hp : ∀ d, m.get? d.key = some d ↔ p d) :
    Enumerates m.values p :=
  ⟨h.pairwise_values hkeyed, fun d => (h.mem_values hkeyed).trans (hp d)⟩

/-- What is filed under a key, if definitions of one key are one: all that have a reference of that key. -/
theorem TypeFile.Holds.enumerates {f : TypeFile} {refs : TypeDef → List TypeRef} {ds : List TypeDef}
    (h : f.Holds (filings refs ds)) (hunique : ∀ d ∈ ds, ∀ e ∈ ds, e.key = d.key → e = d) (k : TypeKey) :
    Enumerates (f.under k).values fun d => d ∈ ds ∧ ∃ r ∈ refs d, r.FiledUnder k := by
  -- whatever is found under the key is what was filed there first of its own key
  have hfiled : ∀ k' d, (f.under k).get? k' = some d →
      d.key = k' ∧ d ∈ ds ∧ ∃ r ∈ refs d, r.FiledUnder k := by
    intro k' d hd
    rw [h.found] at hd
    obtain ⟨x, hx, rfl⟩ := Option.map_eq_some_iff.1 hd
    obtain ⟨hmem, href⟩ := mem_filings.1 (List.mem_of_find?_eq_some hx)
    have hkeys := List.find?_some hx
    simp only [Bool.and_eq_true, decide_eq_true_eq] at hkeys
    exact ⟨hkeys.2, hmem, x.1, href, hkeys.1⟩
  refine enumerates_values (h.sets k) (fun k' d hd => (hfiled k' d hd).1) fun d => ⟨?_, ?_⟩
  · exact fun hd => (hfiled _ d hd).2
  · intro ⟨hd, r, hr, hk⟩
    cases hfound : (f.under k).get? d.key with
    | none =>
      rw [h.found, Option.map_eq_none_iff, List.find?_eq_none] at hfound
      exact absurd (hfound (r, d) (mem_filings.2 ⟨hd, hr⟩)) (by simp [hk])
    | some e =>
      obtain ⟨hkey, he, -⟩ := hfiled _ e hfound
      rw [hunique d hd e he hkey]

/-! ## First of a name -/

/-- A module declares a definition, and no compiler generated it. -/
structure Module.Shows (m : Module) (d : TypeDef) : Prop where
  declared : d ∈ m.allTypes
  written : d.isCompilerGenerated = false

theorem Module.mem_shown_iff {m : Module} {d : TypeDef} :
    d ∈ m.allTypes.filter (!·.isCompilerGenerated) ↔ m.Shows d := by
  rw [List.mem_filter, Bool.not_eq_true']
  exact ⟨fun h => ⟨h.1, h.2⟩, fun h => ⟨h.declared, h.written⟩⟩

theorem Module.Proper.find?_shown_iff {m : Module} (h : m.Proper) {n : String} {d : TypeDef} :
    (m.allTypes.filter (!·.isCompilerGenerated)).find? (·.fullName = n) = some d ↔ m.Shows d ∧ d.fullName = n := by
  rw [← Module.mem_shown_iff]
  exact find?_key_eq_some_iff (h.names.sublist (List.filter_sublist.map _))

theorem Module.find?_shown_eq_none_iff {m : Module} {n : String} :
    (m.allTypes.filter (!·.isCompilerGenerated)).find? (·.fullName = n) = none ↔
      ∀ d, m.Shows d → d.fullName ≠ n := by
  rw [List.find?_eq_none]
  exact forall_congr' fun d => by rw [Module.mem_shown_iff, decide_eq_true_eq]

namespace Registry

/-- Some module declares a definition, and no compiler generated it. -/
def Shows (g : Registry) (d : TypeDef) : Prop := ∃ m ∈ g.modules, m.Shows d

variable {g : Registry}

theorem mem_indexed_iff {d : TypeDef} : d ∈ TypeIndex.indexed g.modules ↔ g.Shows d := by
  rw [TypeIndex.indexed, List.filter_flatMap, List.mem_flatMap]
  exact exists_congr fun m => and_congr_right fun _ => Module.mem_shown_iff

theorem findType_eq_findSome? (h : g.index.Catalogues (TypeIndex.indexed g.modules)) (n : String) :
    g.findType n =
      g.modules.findSome? fun m => (m.allTypes.filter (!·.isCompilerGenerated)).find? (·.fullName = n) := by
  rw [findType, h.byName, TypeIndex.indexed, List.filter_flatMap, List.find?_flatMap]

/-- **By full name the definition of the first module that has one is found.** -/
theorem findType_eq_some_iff (h : g.index.Catalogues (TypeIndex.indexed g.modules))
    (hproper : ∀ m ∈ g.modules, m.Proper) {n : String} {d : TypeDef} :
    g.findType n = some d ↔ ∃ before m after, g.modules = before ++ m :: after ∧
      (m.Shows d ∧ d.fullName = n) ∧ ∀ m' ∈ before, ∀ e, m'.Shows e → e.fullName ≠ n := by
  rw [findType_eq_findSome? h, List.findSome?_eq_some_iff]
  refine exists_congr fun before => exists_congr fun m => exists_congr fun after => and_congr_right fun hsplit => ?_
  have hm : m.Proper := hproper m (by simp [hsplit])
  rw [hm.find?_shown_iff]
  exact and_congr_right fun _ => forall₂_congr fun m' _ => Module.find?_shown_eq_none_iff

theorem findType_eq_none_iff (h : g.index.Catalogues (TypeIndex.indexed g.modules)) {n : String} :
    g.findType n = none ↔ ∀ d, g.Shows d → d.fullName ≠ n := by
  rw [findType, h.byName, List.find?_eq_none]
  exact forall_congr' fun d => by rw [mem_indexed_iff, decide_eq_true_eq]

/-! ## All views -/

/-- What a registry has and finds is what its modules declare: by key all definitions that no compiler generated; by
full name the one of the first module that has one; under a base and under an interface those that declare it, where
an instance of a generic type stands for that type; and by its reference every definition. -/
structure Exact (g : Registry) : Prop where
  types : Enumerates g.types g.Shows
  found : ∀ n d, g.findType n = some d ↔ ∃ before m after, g.modules = before ++ m :: after ∧
    (m.Shows d ∧ d.fullName = n) ∧ ∀ m' ∈ before, ∀ e, m'.Shows e → e.fullName ≠ n
  missing : ∀ n, g.findType n = none ↔ ∀ d, g.Shows d → d.fullName ≠ n
  derived : ∀ k, Enumerates (g.derivedFrom k) fun d => g.Shows d ∧ ∃ b, d.base = some b ∧ b.FiledUnder k
  implementers : ∀ k, Enumerates (g.implementersOf k) fun d => g.Shows d ∧ ∃ i ∈ d.interfaces, i.FiledUnder k
  resolved : ∀ d ∈ g.declared, (resolve d.reference).result g.resolver.clearCache = some d

/-- **The views of a registry are exact.** Modules that are made from images are proper, and a registry of proper
modules, whatever was added, loaded and indexed anew on the way, has and finds what its modules declare. -/
theorem lookups_exact :
    (∀ (image : ModuleImage) (m : Module), image.toModule = .ok m → m.Proper) ∧
      ∀ cs : List Change, (∀ m ∈ (empty.changeAll cs).modules, m.Proper) → (empty.changeAll cs).Exact := by
  refine ⟨fun _ _ => ModuleImage.proper_of_toModule, fun cs hproper => ?_⟩
  have hcatalogues := changeAll_catalogues cs
  obtain ⟨hknows, hapart⟩ := changeAll_knows cs
  have honce (n : String) : ∀ m ∈ (empty.changeAll cs).modules, m.Once n := fun m hm => (hproper m hm).once n
  have hunique : ∀ d ∈ TypeIndex.indexed (empty.changeAll cs).modules,
      ∀ e ∈ TypeIndex.indexed (empty.changeAll cs).modules, e.key = d.key → e = d := fun d hd e he =>
    eq_of_key hapart (honce d.fullName) (declared_of_mem_indexed hd) (declared_of_mem_indexed he) rfl
  refine {
    types := ?_
    found := fun n d => findType_eq_some_iff hcatalogues hproper
    missing := fun n => findType_eq_none_iff hcatalogues
    derived := fun k => ?_
    implementers := fun k => ?_
    resolved := fun d hd => resolve_reference_of_once hknows hapart (honce d.fullName) hd }
  · refine enumerates_values hcatalogues.sorted (key_of_get?_types hcatalogues) fun d => ?_
    rw [hcatalogues.types, find?_reverse_eq_some_iff, ← mem_indexed_iff]
    exact ⟨LastOf.mem, fun hd => lastOf_of_unique hd (hunique d hd)⟩
  · have hfiled := hcatalogues.inheritance.enumerates hunique k
    simpa only [derivedFrom_eq_under, mem_indexed_iff, Option.mem_toList] using hfiled
  · have hfiled := hcatalogues.interfaces.enumerates hunique k
    simpa only [implementersOf_eq_under, mem_indexed_iff] using hfiled

/-- A cage with a lock that a compiler generated. -/
def cage : TypeImage where
  name := "Zoo.Cage"
  genericParams := [{ name := "T" }]
  nested := [{ name := "Lock", attributes := [.plain TypeDef.compilerGeneratedAttribute (some "System.Runtime")] }]

/-- A cage of animals, itself an animal. -/
def herd : TypeImage where
  name := "Zoo.Herd"
  base := some (.genericInstance (.own "Zoo.Cage") [.own "Zoo.Animal"])
  interfaces := [.own "Zoo.Animal"]

def zoo : ModuleImage := { name := "Zoo", types := [herd, cage, { name := "Zoo.Animal", kind := .interface }] }

/-- Finds the zoo, wherever it looks. -/
def safari : ModuleSource where
  candidates _ _ := return .ok ["zoo"]
  load paths := paths.map fun path => ⟨path, zoo.toModule.mapError .malformed⟩

/-- A park with a herd of its own, under the name that the zoo has for its own. -/
def park : Module := { name := "Park", types := [.newClass "Zoo" "Herd" "Park"] }

theorem lookups_exact_zoo :
    let g := empty.changeAll [.add park, .load safari "" [], .refreshAll]
    (∃ m, zoo.toModule = .ok m ∧ m.Proper) ∧ (∀ m ∈ g.modules, m.Proper) ∧ g.declared.length = 5 ∧
      g.typeCount = 4 ∧ g.Exact := by
  intro g
  have hmodules : ∀ m ∈ g.modules, m.Proper := by decide +kernel
  refine ⟨?_, hmodules, by decide +kernel, by decide +kernel, lookups_exact.2 _ hmodules⟩
  have hmade : zoo.toModule.toOption.isSome = true := by decide +kernel
  cases hm : zoo.toModule with
  | error => simp [hm, Except.toOption] at hmade
  | ok m => exact ⟨m, rfl, lookups_exact.1 zoo m hm⟩

end Registry

end Coupling
