/-
What a registry knows is what its modules declare.

`Consistent` says that the index files the types of the modules by the interfaces
they declare and that the resolver finds each module by its name. Adding modules
keeps it, loading them and indexing them anew do, and so does every question. In
a consistent registry each definition that is found, be it by the resolver or
among the implementers of an interface, is declared in one of the modules
(`declared_of_meaning`, `mem_implementersOf`), and its references are among those
of the registry (`parts_mem_references`).
-/
import Coupling.Proofs.Resolution.Memory
import Coupling.Usage

namespace Coupling

/-! ## Parts of references -/

namespace TypeRef

theorem self_mem_parts (r : TypeRef) : r ∈ r.parts := by
  cases r <;> simp [parts]

theorem constraint_mem_parts {name owner : String} {constraints : List TypeRef} {c : TypeRef}
    (hc : c ∈ constraints) : c ∈ (genericParameter name owner constraints).parts := by
  simp only [parts, partsOfList_eq_flatMap, List.mem_cons, List.mem_flatMap]
  exact .inr ⟨c, hc, c.self_mem_parts⟩

theorem element_mem_parts {element : TypeRef} {arguments : List TypeRef} :
    element ∈ (genericInstance element arguments).parts := by
  simp [parts, element.self_mem_parts]

theorem argument_mem_parts {element : TypeRef} {arguments : List TypeRef} {a : TypeRef}
    (ha : a ∈ arguments) : a ∈ (genericInstance element arguments).parts := by
  simp only [parts, partsOfList_eq_flatMap, List.mem_cons, List.mem_append, List.mem_flatMap]
  exact .inr (.inr ⟨a, ha, a.self_mem_parts⟩)

mutual

theorem parts_trans {p q : TypeRef} (hq : q ∈ p.parts) : ∀ r : TypeRef, p ∈ r.parts → q ∈ r.parts
  | .plain .., hp | .functionPointer _, hp => by
    simp only [parts, List.mem_singleton] at hp
    exact hp ▸ hq
  | .genericParameter _ _ constraints, hp => by
    simp only [parts, List.mem_cons] at hp
    rcases hp with rfl | hp
    · exact hq
    · exact List.mem_cons_of_mem _ (partsOfList_trans hq constraints hp)
  | .genericInstance element arguments, hp => by
    simp only [parts, List.mem_cons, List.mem_append] at hp
    rcases hp with rfl | hp | hp
    · exact hq
    · exact List.mem_cons_of_mem _ (List.mem_append_left _ (parts_trans hq element hp))
    · exact List.mem_cons_of_mem _ (List.mem_append_right _ (partsOfList_trans hq arguments hp))
  | .array element _, hp | .byReference element, hp | .pointer element, hp => by
    simp only [parts, List.mem_cons] at hp
    rcases hp with rfl | hp
    · exact hq
    · exact List.mem_cons_of_mem _ (parts_trans hq element hp)

theorem partsOfList_trans {p q : TypeRef} (hq : q ∈ p.parts) :
    ∀ rs : List TypeRef, p ∈ partsOfList rs → q ∈ partsOfList rs
  | [], hp => by simp [partsOfList] at hp
  | r :: rs, hp => by
    simp only [partsOfList, List.mem_append] at hp ⊢
    rcases hp with hp | hp
    · exact .inl (parts_trans hq r hp)
    · exact .inr (partsOfList_trans hq rs hp)

end

end TypeRef

theorem TypeDef.self_mem_references (d : TypeDef) : d.reference ∈ d.references := by
  simp [references]

theorem TypeDef.method_references {d : TypeDef} {m : MethodDef} (hm : m ∈ d.methods) {t : TypeRef}
    (ht : t ∈ m.references) : t ∈ d.references :=
  List.mem_append_right _ (List.mem_flatMap.2 ⟨m, hm, ht⟩)

theorem Module.parts_mem_referencesIn {ms : List Module} {d : TypeDef} (hd : d ∈ ms.flatMap Module.allTypes)
    {t p : TypeRef} (ht : t ∈ d.references) (hp : p ∈ t.parts) : p ∈ referencesIn ms :=
  List.mem_flatMap.2 ⟨t, List.mem_flatMap.2 ⟨d, hd, ht⟩, hp⟩

theorem Module.parts_mem_referencesIn_of_mem {ms : List Module} {r p : TypeRef} (hr : r ∈ referencesIn ms)
    (hp : p ∈ r.parts) : p ∈ referencesIn ms := by
  obtain ⟨t, ht, hr⟩ := List.mem_flatMap.1 hr
  exact List.mem_flatMap.2 ⟨t, ht, TypeRef.parts_trans hp t hr⟩

/-! ## Files of types -/

theorem TypeSet.mem_add {s : TypeSet} {d : TypeDef} {e : TypeKey × TypeDef} (h : e ∈ (s.add d).entries) :
    e ∈ s.entries ∨ e = (d.key, d) := by
  rcases SortedMap.mem_place h with h | h | ⟨k, a, ha, -, rfl⟩
  · exact .inr h
  · exact .inl h
  · exact .inl ha

theorem TypeSet.keys_add {s : TypeSet} {d : TypeDef} {k : TypeKey} :
    k ∈ (s.add d).keys ↔ k = d.key ∨ k ∈ s.keys :=
  SortedMap.mem_keys_alter

/-- Each type with each of the references it is filed under. -/
def filings (refs : TypeDef → List TypeRef) (ds : List TypeDef) : List (TypeRef × TypeDef) :=
  ds.flatMap fun d => (refs d).map fun r => (r, d)

theorem mem_filings {refs : TypeDef → List TypeRef} {ds : List TypeDef} {x : TypeRef × TypeDef} :
    x ∈ filings refs ds ↔ x.2 ∈ ds ∧ x.1 ∈ refs x.2 := by
  obtain ⟨r, d⟩ := x
  simp only [filings, List.mem_flatMap, List.mem_map, Prod.mk.injEq]
  constructor
  · rintro ⟨d', hd, r', hr, rfl, rfl⟩
    exact ⟨hd, hr⟩
  · rintro ⟨hd, hr⟩
    exact ⟨d, hd, r, hr, rfl, rfl⟩

/-- What is filed by interface, for types in order. -/
def interfaceFilings (ds : List TypeDef) : List (TypeRef × TypeDef) :=
  ds.flatMap fun d => d.interfaces.map fun i => (i, d)

theorem mem_interfaceFilings {ds : List TypeDef} {x : TypeRef × TypeDef} :
    x ∈ interfaceFilings ds ↔ x.2 ∈ ds ∧ x.1 ∈ x.2.interfaces :=
  mem_filings

namespace TypeFile

/-- The types filed under a key. -/
def under (f : TypeFile) (k : TypeKey) : TypeSet := (f.get? k).getD ∅

theorem values_under (f : TypeFile) (k : TypeKey) : ((f.get? k).map (·.values)).getD [] = (f.under k).values := by
  unfold under
  cases f.get? k <;> rfl

theorem under_add {f : TypeFile} (hf : f.Sorted) (r : TypeRef) (d : TypeDef) (k : TypeKey) :
    (f.add r d).under k = if k = r.definitionKey then (f.under k).add d else f.under k := by
  unfold under add
  split
  · rename_i hk
    rw [hk, SortedMap.Sorted.get?_alter_self hf]
    rfl
  · rename_i hk
    rw [SortedMap.get?_alter_other _ _ hk]

theorem sorted_add {f : TypeFile} (hf : f.Sorted) (r : TypeRef) (d : TypeDef) : (f.add r d).Sorted :=
  SortedMap.Sorted.alter hf _ _

/-- Files types under the keys of references, one after the other. -/
def addAll (f : TypeFile) (filings : List (TypeRef × TypeDef)) : TypeFile :=
  filings.foldl (fun f x => f.add x.1 x.2) f

theorem addAll_append (f : TypeFile) (xs ys : List (TypeRef × TypeDef)) :
    f.addAll (xs ++ ys) = (f.addAll xs).addAll ys :=
  List.foldl_append

theorem mem_under_addAll {f : TypeFile} (hf : f.Sorted) {filings : List (TypeRef × TypeDef)} {k : TypeKey}
    {e : TypeKey × TypeDef} (h : e ∈ ((f.addAll filings).under k).entries) :
    e ∈ (f.under k).entries ∨ ∃ x ∈ filings, x.1.definitionKey = k ∧ e = (x.2.key, x.2) := by
  induction filings generalizing f with
  | nil => exact .inl h
  | cons x filings ih =>
    rcases ih (sorted_add hf x.1 x.2) h with h | ⟨y, hy, hk, he⟩
    · rw [under_add hf] at h
      split at h
      · rename_i hk
        rcases TypeSet.mem_add h with h | h
        · exact .inl h
        · exact .inr ⟨x, by simp, hk.symm, h⟩
      · exact .inl h
    · exact .inr ⟨y, by simp [hy], hk, he⟩

theorem keys_under_addAll {f : TypeFile} (hf : f.Sorted) {filings : List (TypeRef × TypeDef)} {k k' : TypeKey} :
    k' ∈ ((f.addAll filings).under k).keys ↔
      k' ∈ (f.under k).keys ∨ ∃ x ∈ filings, x.1.definitionKey = k ∧ x.2.key = k' := by
  induction filings generalizing f with
  | nil => simp [addAll]
  | cons x filings ih =>
    have hstep : k' ∈ ((f.add x.1 x.2).under k).keys ↔
        k' ∈ (f.under k).keys ∨ (x.1.definitionKey = k ∧ x.2.key = k') := by
      rw [under_add hf]
      split
      · rename_i hk
        rw [TypeSet.keys_add]
        simp [hk, or_comm, eq_comm]
      · rename_i hk
        simp [Ne.symm hk]
    rw [addAll, List.foldl_cons, ← addAll, ih (sorted_add hf x.1 x.2), hstep]
    simp [or_assoc]

/-- The file has types, and no others, under the keys of the interfaces they declare. -/
structure Lists (f : TypeFile) (ds : List TypeDef) : Prop where
  sorted : f.Sorted
  sound : ∀ k, ∀ e ∈ (f.under k).entries, ∃ d ∈ ds, (∃ i ∈ d.interfaces, i.definitionKey = k) ∧ e = (d.key, d)
  complete : ∀ d ∈ ds, ∀ i ∈ d.interfaces, d.key ∈ (f.under i.definitionKey).keys

theorem lists_empty : Lists ∅ [] where
  sorted := SortedMap.sorted_empty
  sound _ _ he := absurd he List.not_mem_nil
  complete _ hd := absurd hd List.not_mem_nil

theorem Lists.congr {f : TypeFile} {ds es : List TypeDef} (h : Lists f ds) (hmem : ∀ d, d ∈ es ↔ d ∈ ds) :
    Lists f es where
  sorted := h.sorted
  sound k e he := by
    obtain ⟨d, hd, hde⟩ := h.sound k e he
    exact ⟨d, (hmem d).2 hd, hde⟩
  complete d hd := h.complete d ((hmem d).1 hd)

theorem Lists.addAll {f : TypeFile} {ds : List TypeDef} (h : Lists f ds) (es : List TypeDef) :
    Lists (f.addAll (interfaceFilings es)) (ds ++ es) where
  sorted := h.sorted.foldl_alter _
  sound k e he := by
    rcases mem_under_addAll h.sorted he with he | ⟨x, hx, hk, rfl⟩
    · obtain ⟨d, hd, hde⟩ := h.sound k e he
      exact ⟨d, by simp [hd], hde⟩
    · obtain ⟨hmem, hi⟩ := mem_interfaceFilings.1 hx
      exact ⟨x.2, by simp [hmem], ⟨x.1, hi, hk⟩, rfl⟩
  complete d hd i hi := by
    rw [keys_under_addAll h.sorted]
    rcases List.mem_append.1 hd with hd | hd
    · exact .inl (h.complete d hd i hi)
    · exact .inr ⟨(i, d), mem_interfaceFilings.2 ⟨hd, hi⟩, rfl, rfl⟩

end TypeFile

namespace TypeIndex

theorem interfaces_foldl_addType (x : TypeIndex) (ds : List TypeDef) :
    (ds.foldl addType x).interfaces = TypeFile.addAll x.interfaces (interfaceFilings ds) := by
  induction ds generalizing x with
  | nil => rfl
  | cons d ds ih =>
    have hcons : interfaceFilings (d :: ds) = (d.interfaces.map fun i => (i, d)) ++ interfaceFilings ds := rfl
    rw [List.foldl_cons, ih, hcons, TypeFile.addAll_append]
    simp only [addType, TypeFile.addAll, List.foldl_map]

/-- The types of modules that are indexed. -/
def indexed (ms : List Module) : List TypeDef := (ms.flatMap Module.allTypes).filter (!·.isCompilerGenerated)

theorem addModules_eq_foldl (x : TypeIndex) (ms : List Module) :
    x.addModules ms = (indexed ms).foldl addType x := by
  induction ms generalizing x with
  | nil => rfl
  | cons m ms ih =>
    rw [addModules, List.foldl_cons, ← addModules, ih]
    simp only [indexed, addModule, List.flatMap_cons, List.filter_append, List.foldl_append]

theorem indexed_append (ms ns : List Module) : indexed (ms ++ ns) = indexed ms ++ indexed ns := by
  simp [indexed]

theorem lists_addModules {x : TypeIndex} {ms : List Module} (h : x.interfaces.Lists (indexed ms))
    (ns : List Module) : (x.addModules ns).interfaces.Lists (indexed (ms ++ ns)) := by
  rw [addModules_eq_foldl, interfaces_foldl_addType, indexed_append]
  exact h.addAll _

end TypeIndex

/-! ## Registries -/

namespace Registry

/-- The definitions of all modules. -/
def declared (g : Registry) : List TypeDef := g.modules.flatMap Module.allTypes

/-- The resolver finds the modules of the registry by their names. -/
def Knows (g : Registry) : Prop := ∀ name, g.resolver.modules.get? name = g.modules.find? (·.name == name)

/-- The index and the resolver hold what the modules declare. -/
structure Consistent (g : Registry) : Prop where
  interfaces : g.index.interfaces.Lists (TypeIndex.indexed g.modules)
  knows : g.Knows

theorem consistent_empty : Consistent empty := ⟨TypeFile.lists_empty, fun _ => rfl⟩

theorem register_eq_some {g g' : Registry} {m : Module} (h : g.register m = some g') :
    g.containsModule m.name = false ∧
      g' = { g with modules := g.modules ++ [m], resolver := g.resolver.register m } := by
  simp only [register] at h
  split at h
  · simp at h
  · rename_i hnew
    exact ⟨by simpa using hnew, (Option.some.inj h).symm⟩

theorem Knows.register {g g' : Registry} {m : Module} (h : g.Knows) (hadd : g.register m = some g') :
    g'.Knows := by
  obtain ⟨hnew, rfl⟩ := register_eq_some hadd
  intro name
  have hfind : g.modules.find? (·.name == m.name) = none := by
    simpa [containsModule, List.find?_eq_none] using hnew
  simp only [Resolver.register, Resolver.clearCache, List.find?_append]
  by_cases hname : name = m.name
  · subst hname
    simp [hfind]
  · rw [SortedMap.get?_insert_other _ _ hname, h]
    simp [Ne.symm hname]

/-- A question leaves the modules, the index and the modules of the resolver. -/
theorem Consistent.ask {g : Registry} (h : Consistent g) {α : Type} {q : Resolving α}
    (hq : (q.after g.resolver).modules = g.resolver.modules) : Consistent (g.ask q).value.2 :=
  ⟨h.interfaces, fun name => (congrArg (·.get? name) hq).trans (h.knows name)⟩

theorem Consistent.refresh {g : Registry} (h : Consistent g) {ms : List Module} (hms : ∀ m ∈ ms, m ∈ g.modules) :
    Consistent (g.refresh ms) := by
  refine ⟨(TypeIndex.lists_addModules h.interfaces ms).congr fun d => ?_, h.knows⟩
  have hold : d ∈ TypeIndex.indexed ms → d ∈ TypeIndex.indexed g.modules := by
    simp only [TypeIndex.indexed, List.mem_filter, List.mem_flatMap]
    rintro ⟨⟨m, hm, hd⟩, hgenerated⟩
    exact ⟨⟨m, hms m hm, hd⟩, hgenerated⟩
  rw [TypeIndex.indexed_append, List.mem_append]
  exact ⟨.inl, Or.rec id hold⟩

theorem Consistent.refreshAll {g : Registry} (h : Consistent g) : Consistent g.refreshAll := by
  have hempty : TypeIndex.empty.interfaces.Lists (TypeIndex.indexed []) := TypeFile.lists_empty
  exact ⟨TypeIndex.lists_addModules hempty g.modules, h.knows⟩

/-! ## Modules that are taken in -/

/-- What taking modules in does to a registry, and which it lists besides those listed before. -/
structure Takes (g : Registry) (added : List Module) (g' : Registry) (added' : List Module) : Prop where
  new : ∃ ms, g'.modules = g.modules ++ ms ∧ added' = added ++ ms
  index : g'.index = g.index
  knows : g.Knows → g'.Knows
  /-- Modules stay named apart. -/
  apart : (g.modules.map Module.name).Nodup → (g'.modules.map Module.name).Nodup
  /-- Nothing is remembered when there is a new module. -/
  resolver : g'.resolver = g.resolver ∨ g'.resolver = g'.resolver.clearCache

theorem takes_paths (g : Registry) (added : List Module) (loaded failed : PathSet) :
    Takes g added { g with loadedPaths := loaded, failedPaths := failed } added :=
  ⟨⟨[], by simp⟩, rfl, fun h => h, fun h => h, .inl rfl⟩

theorem Takes.trans {g g' g'' : Registry} {added added' added'' : List Module} (h : Takes g added g' added')
    (h' : Takes g' added' g'' added'') : Takes g added g'' added'' where
  new := by
    obtain ⟨ms, hmodules, hadded⟩ := h.new
    obtain ⟨ns, hmodules', hadded'⟩ := h'.new
    exact ⟨ms ++ ns, by rw [hmodules', hmodules, List.append_assoc], by rw [hadded', hadded, List.append_assoc]⟩
  index := h'.index.trans h.index
  knows hg := h'.knows (h.knows hg)
  apart hg := h'.apart (h.apart hg)
  resolver := by
    rcases h'.resolver with heq | hcleared
    · rw [heq]
      exact h.resolver
    · exact .inr hcleared

theorem register_takes {g g' : Registry} {m : Module} (h : g.register m = some g') (added : List Module) :
    Takes g added g' (added ++ [m]) := by
  refine ⟨⟨[m], ?_, rfl⟩, ?_, fun hg => hg.register h, fun hg => ?_, ?_⟩ <;> obtain ⟨hnew, rfl⟩ := register_eq_some h
  · rfl
  · rfl
  · rw [containsModule, List.any_eq_false] at hnew
    simp only [List.map_append, List.map_cons, List.map_nil, List.nodup_append, List.nodup_singleton, true_and]
    refine ⟨hg, fun name hname other hother heq => ?_⟩
    obtain ⟨n, hn, rfl⟩ := List.mem_map.1 hname
    rw [List.mem_singleton.1 hother] at heq
    exact hnew n hn (by simpa using heq)
  · exact .inr rfl

/-- One candidate. -/
theorem takeCandidate_takes (g : Registry) (added : List Module) (c : LoadCandidate) :
    Takes g added (g.takeCandidate added c).value.1 (g.takeCandidate added c).value.2 := by
  unfold takeCandidate
  split
  · exact takes_paths g added g.loadedPaths _
  · rename_i m hm
    have hpaths := takes_paths g added (PathSet.add g.loadedPaths c.path) g.failedPaths
    dsimp only
    split
    · rename_i g' hg'
      exact hpaths.trans (register_takes hg' added)
    · exact hpaths

/-- All candidates. -/
theorem takeCandidates_takes (g : Registry) (added : List Module) (cs : List LoadCandidate) :
    Takes g added (g.takeCandidates added cs).value.1 (g.takeCandidates added cs).value.2 := by
  induction cs generalizing g added with
  | nil => exact takes_paths g added g.loadedPaths g.failedPaths
  | cons c cs ih => exact (takeCandidate_takes g added c).trans (ih _ _)

/-- A registry after modules were taken in and indexed. -/
theorem Takes.consistent {g g' : Registry} {ms : List Module} (h : Takes g [] g' ms) (hg : Consistent g) :
    Consistent (g'.refresh ms) := by
  obtain ⟨ns, hmodules, hadded⟩ := h.new
  refine ⟨?_, h.knows hg.knows⟩
  simp only [Registry.refresh, h.index, hmodules, hadded, List.nil_append]
  exact TypeIndex.lists_addModules hg.interfaces ns

theorem add_takes {g g' : Registry} {m : Module} (h : g.add m = some g') :
    ∃ g₁, Takes g [] g₁ [m] ∧ g' = g₁.refresh [m] := by
  obtain ⟨g₁, hg₁, rfl⟩ := Option.map_eq_some_iff.1 h
  exact ⟨g₁, register_takes hg₁ [], rfl⟩

theorem load_takes {g g' : Registry} {source : ModuleSource} {path : String} {masks : List String}
    {added : List Module} (h : (g.load source path masks).value = .ok (added, g')) :
    ∃ g₁, Takes g [] g₁ added ∧ g' = g₁.refresh added := by
  simp only [load, Logged.value_bind] at h
  split at h
  · simp at h
  · rename_i paths hpaths
    simp only [Logged.value_bind, Logged.value_pure, Except.ok.injEq, Prod.mk.injEq] at h
    obtain ⟨rfl, rfl⟩ := h
    exact ⟨_, takeCandidates_takes g [] _, rfl⟩

/-! ## Implementers -/

theorem derivedFrom_eq_under (g : Registry) (k : TypeKey) :
    g.derivedFrom k = (TypeFile.under g.index.inheritance k).values :=
  TypeFile.values_under g.index.inheritance k

theorem implementersOf_eq_under (g : Registry) (k : TypeKey) :
    g.implementersOf k = (TypeFile.under g.index.interfaces k).values :=
  TypeFile.values_under g.index.interfaces k

/-- An implementer of an interface is an indexed type that declares it. -/
theorem mem_implementersOf {g : Registry} (h : Consistent g) {d : TypeDef} {k : TypeKey}
    (hd : d ∈ g.implementersOf k) :
    d ∈ TypeIndex.indexed g.modules ∧ ∃ i ∈ d.interfaces, i.definitionKey = k := by
  rw [implementersOf_eq_under] at hd
  obtain ⟨e, he, rfl⟩ := List.mem_map.1 hd
  obtain ⟨d, hmem, hi, rfl⟩ := h.interfaces.sound k e he
  exact ⟨hmem, hi⟩

/-- Each indexed type that declares an interface is among its implementers, up to its key. -/
theorem exists_mem_implementersOf {g : Registry} (h : Consistent g) {d : TypeDef}
    (hd : d ∈ TypeIndex.indexed g.modules) {i : TypeRef} (hi : i ∈ d.interfaces) :
    ∃ d' ∈ g.implementersOf i.definitionKey, d'.key = d.key := by
  obtain ⟨e, he, hk⟩ := List.mem_map.1 (h.interfaces.complete d hd i hi)
  refine ⟨e.2, by rw [implementersOf_eq_under]; exact List.mem_map_of_mem he, ?_⟩
  obtain ⟨d', -, -, rfl⟩ := h.interfaces.sound _ e he
  exact hk

theorem declared_of_mem_indexed {g : Registry} {d : TypeDef} (h : d ∈ TypeIndex.indexed g.modules) :
    d ∈ g.declared :=
  List.mem_of_mem_filter h

theorem declared_of_definition? {g : Registry} (h : Consistent g) {scope fullName : String} {d : TypeDef}
    (hd : g.resolver.definition? scope fullName = some d) : d ∈ g.declared := by
  obtain ⟨m, hm, hd⟩ := Option.bind_eq_some_iff.1 hd
  rw [h.knows] at hm
  have hd := List.mem_of_find?_eq_some hd
  exact List.mem_flatMap.2 ⟨m, List.mem_of_find?_eq_some hm, List.mem_reverse.1 hd⟩

/-- What a reference means is declared in a module. -/
theorem declared_of_meaning {g : Registry} (h : Consistent g) {d : TypeDef} :
    ∀ {r : TypeRef}, g.resolver.meaning r = some d → d ∈ g.declared
  | .plain .., hd => by
    simp only [Resolver.meaning_plain] at hd
    exact declared_of_definition? h hd
  | .genericInstance element _, hd => by
    simp only [Resolver.meaning, Option.ite_none_right_eq_some] at hd
    exact declared_of_meaning h hd.2
  | .genericParameter .., hd | .array .., hd | .byReference _, hd | .pointer _, hd | .functionPointer _, hd => by
    simp [Resolver.meaning] at hd

theorem Takes.references {g g' : Registry} {added added' : List Module} (h : Takes g added g' added')
    {r : TypeRef} (hr : r ∈ g.references) : r ∈ g'.references := by
  obtain ⟨ms, hmodules, -⟩ := h.new
  simp only [Registry.references, Module.referencesIn, hmodules, List.flatMap_append, List.mem_append]
  exact .inl hr

/-- A reference of a definition, and whatever it is made of, is among the references of the registry. -/
theorem parts_mem_references {g : Registry} {d : TypeDef} (hd : d ∈ g.declared) {t p : TypeRef}
    (ht : t ∈ d.references) (hp : p ∈ t.parts) : p ∈ g.references :=
  Module.parts_mem_referencesIn hd ht hp

theorem parts_mem_references_of_mem {g : Registry} {r p : TypeRef} (hr : r ∈ g.references) (hp : p ∈ r.parts) :
    p ∈ g.references :=
  Module.parts_mem_referencesIn_of_mem hr hp

end Registry

end Coupling
