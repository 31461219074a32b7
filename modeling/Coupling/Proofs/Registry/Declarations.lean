/-
Which types declare an interface.

`Indexes` says that the index of a registry was made of definitions, whatever
modules they came from and however often they were indexed, of which no two share
a key. Its lists are then those of the definitions by key. What is filed under an
interface are the types that declare it or an instance of it
(`Indexes.implementersOf_eq`). A query for the interface asks for its own key, which
an instance has not: the two agree where no type tells them apart
(`withInterface_eq_iff`), and not on instances of generic interfaces
(`withInterface_misses_instances`).
-/
import Coupling.Proofs.Registry.Exactness
import Coupling.Query

namespace Coupling

/-! ## Lists by key -/

namespace Enumerates

variable {ds es : List TypeDef} {p : TypeDef → Prop}

theorem nodup (h : Enumerates ds p) : ds.Nodup := by
  refine h.ordered.imp fun {d e} hlt heq => ?_
  simp [heq] at hlt

/-- There is one such list. -/
theorem unique (h : Enumerates ds p) (h' : Enumerates es p) : ds = es := by
  have hmem (d : TypeDef) : d ∈ ds ↔ d ∈ es := (h.mem d).trans (h'.mem d).symm
  refine ((List.perm_ext_iff_of_nodup h.nodup h'.nodup).2 hmem).eq_of_pairwise (fun d e _ _ hlt hgt => ?_)
    h.ordered h'.ordered
  rw [Std.OrientedCmp.gt_of_lt hlt] at hgt
  cases hgt

theorem filter (h : Enumerates ds p) (q : TypeDef → Bool) :
    Enumerates (ds.filter q) fun d => p d ∧ q d = true :=
  ⟨h.ordered.filter q, fun d => by rw [List.mem_filter, h.mem]⟩

end Enumerates

/-- Filters leave the same exactly if they agree on what is there. -/
theorem filter_eq_filter_iff {α : Type} {p q : α → Bool} {xs : List α} :
    xs.filter p = xs.filter q ↔ ∀ x ∈ xs, p x = q x := by
  refine ⟨fun heq x hx => ?_, List.filter_congr⟩
  have hmem : x ∈ xs.filter p ↔ x ∈ xs.filter q := by rw [heq]
  rw [List.mem_filter, List.mem_filter] at hmem
  rw [Bool.eq_iff_iff]
  simpa [hx] using hmem

/-! ## Definitions that are indexed -/

namespace Registry

/-- The index was made of definitions, one after the other, and no two of them share a key. -/
structure Indexes (g : Registry) (ds : List TypeDef) : Prop where
  index : g.index = ds.foldl TypeIndex.addType .empty
  distinct : ∀ d ∈ ds, ∀ e ∈ ds, d.key = e.key → d = e

variable {g : Registry} {ds : List TypeDef}

/-- A registry made by any changes indexes what its modules declare and no compiler generated. -/
theorem changeAll_indexes (cs : List Change)
    (hdistinct : ((TypeIndex.indexed (empty.changeAll cs).modules).map TypeDef.key).Nodup) :
    (empty.changeAll cs).Indexes (TypeIndex.indexed (empty.changeAll cs).modules) :=
  ⟨(indexed_empty.changeAll cs).trans (TypeIndex.addModules_eq_foldl .empty _),
    fun _ hd _ he hkey => List.inj_on_of_nodup_map hdistinct hd he hkey⟩

namespace Indexes

/-- Modules may be indexed again, and others too. -/
theorem refresh (h : g.Indexes ds) {ms : List Module}
    (hdistinct : ∀ d ∈ ds ++ TypeIndex.indexed ms, ∀ e ∈ ds ++ TypeIndex.indexed ms, d.key = e.key → d = e) :
    (g.refresh ms).Indexes (ds ++ TypeIndex.indexed ms) := by
  refine ⟨?_, hdistinct⟩
  rw [Registry.refresh, TypeIndex.addModules_eq_foldl, h.index, List.foldl_append]

theorem catalogues (h : g.Indexes ds) : g.index.Catalogues ds := by
  rw [h.index]
  exact TypeIndex.catalogues_empty.addTypes ds

theorem types (h : g.Indexes ds) : Enumerates g.types (· ∈ ds) := by
  refine enumerates_values h.catalogues.sorted (key_of_get?_types h.catalogues) fun d => ?_
  rw [h.catalogues.types, find?_reverse_eq_some_iff]
  exact ⟨LastOf.mem, fun hd => lastOf_of_unique hd fun e he hkey => h.distinct e he d hd hkey⟩

theorem derived (h : g.Indexes ds) (k : TypeKey) :
    Enumerates (g.derivedFrom k) fun d => d ∈ ds ∧ ∃ b, d.base = some b ∧ b.FiledUnder k := by
  have hfiled := h.catalogues.inheritance.enumerates (fun d hd e he hkey => h.distinct e he d hd hkey) k
  simpa only [derivedFrom_eq_under, Option.mem_toList] using hfiled

theorem implementers (h : g.Indexes ds) (k : TypeKey) :
    Enumerates (g.implementersOf k) fun d => d ∈ ds ∧ ∃ i ∈ d.interfaces, i.FiledUnder k := by
  have hfiled := h.catalogues.interfaces.enumerates (fun d hd e he hkey => h.distinct e he d hd hkey) k
  simpa only [implementersOf_eq_under] using hfiled

/-- **Under an interface the types are filed that declare it or an instance of it**, in the order of all types. -/
theorem implementersOf_eq (h : g.Indexes ds) (k : TypeKey) :
    g.implementersOf k = g.types.filter fun d => d.interfaces.any (·.FiledUnder k) := by
  refine (h.implementers k).unique ?_
  have hdeclares (d : TypeDef) : (∃ i ∈ d.interfaces, i.FiledUnder k) ↔
      d.interfaces.any (·.FiledUnder k) = true := by
    simp
  simpa only [hdeclares] using h.types.filter fun d => d.interfaces.any (·.FiledUnder k)

end Indexes

/-! ## Asking for an interface -/

theorem withInterface_singleton (i : TypeDef) (ds : List TypeDef) :
    Query.withInterface [i] ds = ds.filter fun d => d.interfaces.any (·.key == i.key) := by
  simp [Query.withInterface]

/-- **Where asking for an interface gives what is filed under it.** In a registry whose definitions have distinct
keys:
- filed under an interface are, in the order of all types, those that declare it or an instance of it;
- asking for it gives, in the same order, the types that declare a reference of its own key;
- the lists are the same exactly if every type that does the one does the other;
- so they are the same if no type declares an instance that is one of the interface or has its key. -/
theorem withInterface_eq_iff (h : g.Indexes ds) (i : TypeDef) :
    g.implementersOf i.key = g.types.filter (fun d => d.interfaces.any (·.FiledUnder i.key)) ∧
      Query.withInterface [i] g.types = g.types.filter (fun d => d.interfaces.any (·.key == i.key)) ∧
      (Query.withInterface [i] g.types = g.implementersOf i.key ↔
        ∀ d ∈ g.types, (∃ r ∈ d.interfaces, r.key = i.key) ↔ ∃ r ∈ d.interfaces, r.FiledUnder i.key) ∧
      ((∀ d ∈ g.types, ∀ e args, .genericInstance e args ∈ d.interfaces →
          e.key ≠ i.key ∧ (TypeRef.genericInstance e args).key ≠ i.key) →
        Query.withInterface [i] g.types = g.implementersOf i.key) := by
  have hfiled := h.implementersOf_eq i.key
  have hasked := withInterface_singleton i g.types
  have hagree : Query.withInterface [i] g.types = g.implementersOf i.key ↔
      ∀ d ∈ g.types, (∃ r ∈ d.interfaces, r.key = i.key) ↔ ∃ r ∈ d.interfaces, r.FiledUnder i.key := by
    rw [hfiled, hasked, filter_eq_filter_iff]
    refine forall₂_congr fun d _ => ?_
    rw [Bool.eq_iff_iff, List.any_eq_true, List.any_eq_true]
    simp only [beq_iff_eq, decide_eq_true_eq]
  refine ⟨hfiled, hasked, hagree, fun hnone => hagree.2 fun d hd => ?_⟩
  refine exists_congr fun r => and_congr_right fun hr => ?_
  by_cases hinstance : ∃ e args, r = .genericInstance e args
  · obtain ⟨e, args, rfl⟩ := hinstance
    obtain ⟨helement, hkey⟩ := hnone d hd e args hr
    rw [TypeRef.filedUnder_genericInstance]
    exact iff_of_false hkey helement
  · rw [TypeRef.filedUnder_of_ne fun e args hr => hinstance ⟨e, args, hr⟩]

/-- An interface. -/
def vehicle : TypeDef := .newInterface "Garage" "Vehicle" "Garage"

/-- A generic interface. -/
def repairs : TypeDef := .newInterface "Garage" "Repairs`1" "Garage"

def car : TypeDef := (TypeDef.newClass "Garage" "Car" "Garage").addInterface vehicle.reference

/-- Declares an instance of the generic interface. -/
def mechanic : TypeDef :=
  (TypeDef.newClass "Garage" "Mechanic" "Garage").addInterface (.genericInstance repairs.reference [car.reference])

def garage : Module := { name := "Garage", types := [vehicle, repairs, mechanic, car] }

theorem indexes_garage : (empty.changeAll [.add garage]).Indexes [vehicle, repairs, mechanic, car] :=
  changeAll_indexes [.add garage] (by decide +kernel)

theorem withInterface_eq_iff_vehicle :
    let g := (empty.changeAll [.add garage]).refresh [garage]
    g.Indexes ([vehicle, repairs, mechanic, car] ++ TypeIndex.indexed [garage]) ∧
      (g.implementersOf vehicle.key).map TypeDef.fullName = ["Garage.Car"] ∧
      Query.withInterface [vehicle] g.types = g.implementersOf vehicle.key := by
  intro g
  have hmodule : TypeIndex.indexed [garage] = [vehicle, repairs, mechanic, car] := rfl
  have hindexes : g.Indexes ([vehicle, repairs, mechanic, car] ++ TypeIndex.indexed [garage]) := by
    refine indexes_garage.refresh fun d hd e he => ?_
    rw [hmodule, List.mem_append, or_self] at hd he
    exact indexes_garage.distinct d hd e he
  have hlisted : ∀ d ∈ [vehicle, repairs, mechanic, car],
      (∃ r ∈ d.interfaces, r.key = vehicle.key) ↔ ∃ r ∈ d.interfaces, r.FiledUnder vehicle.key := by
    decide +kernel
  obtain ⟨-, -, hagree, -⟩ := withInterface_eq_iff hindexes vehicle
  refine ⟨hindexes, by decide +kernel, hagree.2 fun d hd => hlisted d ?_⟩
  rwa [hindexes.types.mem, hmodule, List.mem_append, or_self] at hd

/-- **Asking for a generic interface misses the types that declare instances of it.** -/
theorem withInterface_misses_instances :
    let g := empty.changeAll [.add garage]
    g.Indexes [vehicle, repairs, mechanic, car] ∧ repairs ∈ g.types ∧ repairs.isInterface = true ∧
      (g.implementersOf repairs.key).map TypeDef.fullName = ["Garage.Mechanic"] ∧
      Query.withInterface [repairs] g.types = [] ∧
      Query.withInterface [repairs] g.types ≠ g.implementersOf repairs.key := by
  intro g
  have himplementers : (g.implementersOf repairs.key).map TypeDef.fullName = ["Garage.Mechanic"] := by decide +kernel
  have hnone : Query.withInterface [repairs] g.types = [] := List.isEmpty_iff.1 (by decide +kernel)
  refine ⟨indexes_garage, (indexes_garage.types.mem repairs).2 (by simp), by decide +kernel, himplementers, hnone, ?_⟩
  intro hsame
  rw [← hsame, hnone] at himplementers
  cases himplementers

end Registry

end Coupling
