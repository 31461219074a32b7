/-
An index that grew is the index built from nothing.

Types are filed under the references they name, where an instance of a generic type
counts as that type (`FiledUnder`). `Catalogues` says what an index of types holds, with a rule for types that share
a key or a name: of a key the last type, of a full name the first, and under a
base or an interface the first type of each key. Indexing one more type keeps it
(`Catalogues.addType`). A registry, whatever modules were added to it or loaded
from wherever, and however often its types were indexed anew on the way, has the
index of its modules (`index_eq_rebuilt`), so indexing its types anew changes
nothing.
-/
import Coupling.Proofs.Registry.Contents

namespace Coupling

/-! ## Files of types -/

namespace TypeRef

/-- Types that name the reference are filed under the key: an instance of a generic type counts as that type, and any
other reference as itself. -/
inductive FiledUnder : TypeRef → TypeKey → Prop
  | element (e : TypeRef) (args : List TypeRef) : FiledUnder (.genericInstance e args) e.key
  | itself {r : TypeRef} (h : ∀ e args, r ≠ .genericInstance e args) : FiledUnder r r.key

theorem filedUnder_genericInstance {e : TypeRef} {args : List TypeRef} {k : TypeKey} :
    (genericInstance e args).FiledUnder k ↔ e.key = k := by
  constructor
  · rintro (_ | h)
    · rfl
    · exact absurd rfl (h e args)
  · rintro rfl
    exact .element e args

theorem filedUnder_of_ne {r : TypeRef} {k : TypeKey} (h : ∀ e args, r ≠ .genericInstance e args) :
    r.FiledUnder k ↔ r.key = k := by
  constructor
  · rintro (⟨e, args⟩ | _)
    · exact absurd rfl (h e args)
    · rfl
  · rintro rfl
    exact .itself h

instance decidableFiledUnder (k : TypeKey) : (r : TypeRef) → Decidable (r.FiledUnder k)
  | .genericInstance .. => decidable_of_iff' _ filedUnder_genericInstance
  | .plain .. | .genericParameter .. | .array .. | .byReference _ | .pointer _ | .functionPointer _ =>
    decidable_of_iff' _ (filedUnder_of_ne (by simp))

theorem filedUnder_iff {r : TypeRef} {k : TypeKey} : r.FiledUnder k ↔ r.definitionKey = k := by
  cases r with
  | genericInstance => exact filedUnder_genericInstance
  | plain | genericParameter | array | byReference | pointer | functionPointer =>
    exact filedUnder_of_ne (by simp)

end TypeRef

theorem TypeSet.get?_add {s : TypeSet} (hs : s.Sorted) (d : TypeDef) (k : TypeKey) :
    (s.add d).get? k = if k = d.key then some ((s.get? k).getD d) else s.get? k := by
  rw [TypeSet.add, SortedMap.insertNew, hs.get?_alter]
  split
  · rename_i hk
    rw [hk]
  · rfl

theorem filings_concat (refs : TypeDef → List TypeRef) (ds : List TypeDef) (d : TypeDef) :
    filings refs (ds ++ [d]) = filings refs ds ++ (refs d).map fun r => (r, d) := by
  simp [filings]

namespace TypeFile

/-- The file has sets under the keys that something was filed under, and no others, and in the set of a
key the first type filed there of each type key. -/
structure Holds (f : TypeFile) (filed : List (TypeRef × TypeDef)) : Prop where
  sorted : f.Sorted
  sets : ∀ k, (f.under k).Sorted
  listed : ∀ k, (f.get? k).isSome = filed.any (·.1.FiledUnder k)
  found : ∀ k k', (f.under k).get? k' =
    (filed.find? fun x => x.1.FiledUnder k && x.2.key = k').map (·.2)

variable {f : TypeFile} {filed : List (TypeRef × TypeDef)}

theorem holds_empty : Holds ∅ [] where
  sorted := SortedMap.sorted_empty
  sets _ := SortedMap.sorted_empty
  listed _ := rfl
  found _ _ := rfl

theorem Holds.add (h : f.Holds filed) (r : TypeRef) (d : TypeDef) : (f.add r d).Holds (filed ++ [(r, d)]) where
  sorted := sorted_add h.sorted r d
  sets k := by
    rw [under_add h.sorted]
    split
    · exact (h.sets k).alter _ _
    · exact h.sets k
  listed k := by
    rw [TypeFile.add, h.sorted.get?_alter]
    by_cases hk : k = r.definitionKey
    · simp [hk, TypeRef.filedUnder_iff]
    · simp [hk, Ne.symm hk, h.listed, TypeRef.filedUnder_iff]
  found k k' := by
    have hold := h.found k k'
    rw [under_add h.sorted, List.find?_append]
    by_cases hk : k = r.definitionKey
    · rw [if_pos hk, TypeSet.get?_add (h.sets k), hold]
      by_cases hd : k' = d.key
      · cases filed.find? fun x => x.1.FiledUnder k && x.2.key = k' <;> simp [hk, hd, TypeRef.filedUnder_iff]
      · simp [hd, Ne.symm hd]
    · simp [hk, Ne.symm hk, hold, TypeRef.filedUnder_iff]

theorem Holds.addAll (h : f.Holds filed) (xs : List (TypeRef × TypeDef)) : (f.addAll xs).Holds (filed ++ xs) := by
  induction xs generalizing f filed with
  | nil => simpa [TypeFile.addAll] using h
  | cons x xs ih => simpa [TypeFile.addAll] using ih (h.add x.1 x.2)

end TypeFile

/-! ## Indexes -/

namespace TypeIndex

/-- The index holds types in the order they were indexed: by key, in order, the last type of the key; by
full name the first of the name; and by base and by interface what is filed there. -/
structure Catalogues (x : TypeIndex) (ds : List TypeDef) : Prop where
  sorted : x.types.Sorted
  types : ∀ k, x.types.get? k = ds.reverse.find? (·.key = k)
  names : x.byName.Sorted
  byName : ∀ n, x.byName.get? n = ds.find? (·.fullName = n)
  inheritance : x.inheritance.Holds (filings (·.base.toList) ds)
  interfaces : x.interfaces.Holds (filings (·.interfaces) ds)

theorem catalogues_empty : Catalogues empty [] where
  sorted := SortedMap.sorted_empty
  types _ := rfl
  names := SortedMap.sorted_empty
  byName _ := rfl
  inheritance := TypeFile.holds_empty
  interfaces := TypeFile.holds_empty

theorem foldl_add_eq_addAll (f : TypeFile) (rs : List TypeRef) (d : TypeDef) :
    rs.foldl (·.add · d) f = f.addAll (rs.map fun r => (r, d)) := by
  rw [TypeFile.addAll, List.foldl_map]

/-- **One more type.** -/
theorem Catalogues.addType {x : TypeIndex} {ds : List TypeDef} (h : x.Catalogues ds) (d : TypeDef) :
    (x.addType d).Catalogues (ds ++ [d]) where
  sorted := h.sorted.alter _ _
  types k := by
    show (x.types.alter d.key fun _ => d).get? k = _
    rw [h.sorted.get?_alter, h.types, List.reverse_concat, List.find?_cons]
    by_cases hk : k = d.key
    · simp [hk]
    · simp [hk, Ne.symm hk]
  names := h.names.alter _ _
  byName n := by
    show (x.byName.alter d.fullName (·.getD d)).get? n = _
    rw [h.names.get?_alter, List.find?_append, h.byName, h.byName]
    by_cases hn : n = d.fullName
    · subst hn
      cases ds.find? (·.fullName = d.fullName) <;> simp
    · simp [hn, Ne.symm hn]
  inheritance := by
    rw [filings_concat]
    show TypeFile.Holds (d.base.toList.foldl (·.add · d) x.inheritance) _
    rw [foldl_add_eq_addAll]
    exact h.inheritance.addAll _
  interfaces := by
    rw [filings_concat]
    show TypeFile.Holds (d.interfaces.foldl (·.add · d) x.interfaces) _
    rw [foldl_add_eq_addAll]
    exact h.interfaces.addAll _

theorem Catalogues.addTypes {x : TypeIndex} {ds : List TypeDef} (h : x.Catalogues ds) (es : List TypeDef) :
    (es.foldl TypeIndex.addType x).Catalogues (ds ++ es) := by
  induction es generalizing x ds with
  | nil => simpa using h
  | cons e es ih => simpa using ih (h.addType e)

theorem catalogues_ofModules (ms : List Module) : (ofModules ms).Catalogues (indexed ms) := by
  rw [ofModules, addModules_eq_foldl]
  exact catalogues_empty.addTypes (indexed ms)

theorem ofModules_append (ms ns : List Module) : ofModules (ms ++ ns) = (ofModules ms).addModules ns :=
  List.foldl_append

end TypeIndex

/-! ## Registries -/

namespace Registry

/-- What changes the modules of a registry or what it knows of their types. -/
inductive Change where
  | add (m : Module)
  | load (source : ModuleSource) (path : String) (masks : List String)
  | refreshAll

/-- The registry after a change. One that fails, since a module of that name is there or a mask is bad, leaves
it as it is. -/
def change (g : Registry) : Change → Registry
  | .add m => (g.add m).getD g
  | .load source path masks =>
    match (g.load source path masks).value with
    | .ok (_, g') => g'
    | .error _ => g
  | .refreshAll => g.refreshAll

/-- The registry after changes, one after the other. -/
def changeAll (g : Registry) (cs : List Change) : Registry := cs.foldl change g

section Changes

variable {P : Registry → Prop}

/-- **One change** takes modules in and indexes them, or indexes all anew. -/
theorem change_induct (htakes : ∀ {g g₁ : Registry} {ms : List Module}, P g → Takes g [] g₁ ms → P (g₁.refresh ms))
    (hrefresh : ∀ {g : Registry}, P g → P g.refreshAll) {g : Registry} (h : P g) (c : Change) : P (g.change c) := by
  cases c with
  | add m =>
    simp only [Registry.change]
    cases hadd : g.add m with
    | none => exact h
    | some g' =>
      obtain ⟨g₁, hg₁, rfl⟩ := add_takes hadd
      exact htakes h hg₁
  | load source path masks =>
    simp only [Registry.change]
    split
    · rename_i added g' hload
      obtain ⟨g₁, hg₁, rfl⟩ := load_takes hload
      exact htakes h hg₁
    · exact h
  | refreshAll => exact hrefresh h

/-- **All changes.** -/
theorem changeAll_induct
    (htakes : ∀ {g g₁ : Registry} {ms : List Module}, P g → Takes g [] g₁ ms → P (g₁.refresh ms))
    (hrefresh : ∀ {g : Registry}, P g → P g.refreshAll) {g : Registry} (h : P g) (cs : List Change) :
    P (g.changeAll cs) := by
  induction cs generalizing g with
  | nil => exact h
  | cons c cs ih => exact ih (change_induct htakes hrefresh h c)

end Changes

/-- The index is that of the modules. -/
def Indexed (g : Registry) : Prop := g.index = TypeIndex.ofModules g.modules

theorem indexed_empty : Indexed empty := rfl

/-- Modules that were taken in are indexed after those that were there. -/
theorem Indexed.takes {g g₁ : Registry} {ms : List Module} (h : g.Indexed) (htakes : Takes g [] g₁ ms) :
    (g₁.refresh ms).Indexed := by
  obtain ⟨ns, hmodules, hadded⟩ := htakes.new
  rw [List.nil_append] at hadded
  subst hadded
  have hindex : g₁.index = TypeIndex.ofModules g.modules := htakes.index.trans h
  show g₁.index.addModules ms = TypeIndex.ofModules g₁.modules
  rw [hmodules, TypeIndex.ofModules_append, hindex]

theorem Indexed.changeAll {g : Registry} (h : g.Indexed) (cs : List Change) : (g.changeAll cs).Indexed :=
  changeAll_induct (fun h htakes => h.takes htakes) (fun _ => rfl) h cs

/-- **Indexing all types anew changes nothing.** Whatever was added, loaded and indexed, the types, the names,
the inheritance map and the interface map of a registry are those that are made from its modules alone, and
they are what its modules declare in the order they were added. -/
theorem index_eq_rebuilt (cs : List Change) :
    let g := empty.changeAll cs
    g.types = g.refreshAll.types ∧ (∀ n, g.findType n = g.refreshAll.findType n) ∧
      g.index.inheritance = g.refreshAll.index.inheritance ∧
      g.index.interfaces = g.refreshAll.index.interfaces ∧
      g.index.Catalogues (TypeIndex.indexed g.modules) := by
  intro g
  have hindexed : g.Indexed := indexed_empty.changeAll cs
  have hindex : g.index = g.refreshAll.index := hindexed
  refine ⟨congrArg (·.types.values) hindex, fun n => congrArg (·.byName.get? n) hindex,
    congrArg (·.inheritance) hindex, congrArg (·.interfaces) hindex, ?_⟩
  rw [hindexed]
  exact TypeIndex.catalogues_ofModules g.modules

end Registry

end Coupling
