/-
The order of loading does not show.

Modules that are named apart and whose types are scoped to them can be added in
any order, and a registry can be asked anything before the last of them is there:
it then lists the same types, has the same inheritance and interface maps, and
finds the same usages and entry points in the same order (`session_order`).
Questions leave no trace because adding a module forgets all answers
(`add_call`). The order leaves none because types of one key come from one module,
so two orders of modules give lists of types that agree key by key
(`SameByKey.flatMap`), and indexes in key order that hold the same are the same.
-/
import Coupling.DependencyGraph
import Coupling.Proofs.Registry.Rebuild
import Coupling.Proofs.Usage.Asking
import Mathlib.Data.List.Nodup

namespace Coupling

/-! ## Lists that agree key by key -/

/-- For each key the two lists have the same elements in the same order. -/
def SameByKey {α κ : Type} [DecidableEq κ] (key : α → κ) (xs ys : List α) : Prop :=
  ∀ k, xs.filter (key · = k) = ys.filter (key · = k)

namespace SameByKey

variable {α β κ ι : Type} [DecidableEq κ] [DecidableEq ι] {key : α → κ} {xs ys : List α}

/-- Where each key is there once, only the order of keys can differ. -/
theorem of_perm (h : xs.Perm ys) (hnodup : (xs.map key).Nodup) : SameByKey key xs ys := by
  intro k
  have hperm : (xs.filter (key · = k)).Perm (ys.filter (key · = k)) := h.filter _
  have hkeys : ((xs.filter (key · = k)).map key).Nodup := hnodup.sublist (List.filter_sublist.map key)
  cases hfilter : xs.filter (key · = k) with
  | nil =>
    rw [hfilter] at hperm
    exact (List.nil_perm.1 hperm).symm
  | cons x rest =>
    cases rest with
    | nil =>
      rw [hfilter] at hperm
      exact List.singleton_perm.1 hperm
    | cons y rest =>
      have hx : x ∈ xs.filter (key · = k) := by simp [hfilter]
      have hy : y ∈ xs.filter (key · = k) := by simp [hfilter]
      rw [hfilter] at hkeys
      simp only [List.mem_filter, decide_eq_true_eq] at hx hy
      simp [hx.2, hy.2] at hkeys

theorem reverse (h : SameByKey key xs ys) : SameByKey key xs.reverse ys.reverse := by
  intro k
  rw [List.filter_reverse, List.filter_reverse, h k]

theorem mem_iff (h : SameByKey key xs ys) {x : α} : x ∈ xs ↔ x ∈ ys := by
  have hmem : x ∈ xs.filter (key · = key x) ↔ x ∈ ys.filter (key · = key x) := by rw [h]
  simpa using hmem

theorem find?_eq (h : SameByKey key xs ys) (k : κ) : xs.find? (key · = k) = ys.find? (key · = k) := by
  rw [← List.head?_filter, ← List.head?_filter, h k]

theorem any_eq (h : SameByKey key xs ys) (p : α → Bool) : xs.any p = ys.any p := by
  rw [Bool.eq_iff_iff, List.any_eq_true, List.any_eq_true]
  simp only [h.mem_iff]

/-- What has nothing of a key adds nothing of it. -/
theorem filter_flatMap {key' : β → ι} {f : α → List β} (part : ι → κ)
    (hf : ∀ x ∈ xs, ∀ y ∈ f x, part (key' y) = key x) (k : ι) :
    (xs.flatMap f).filter (key' · = k) =
      (xs.filter (key · = part k)).flatMap fun x => (f x).filter (key' · = k) := by
  induction xs with
  | nil => rfl
  | cons x xs ih =>
    rw [List.flatMap_cons, List.filter_append, ih fun z hz => hf z (by simp [hz]), List.filter_cons]
    by_cases hx : key x = part k
    · simp [hx]
    · have hnone : (f x).filter (key' · = k) = [] := by
        rw [List.filter_eq_nil_iff]
        intro y hy hk
        simp only [decide_eq_true_eq] at hk
        exact hx (by rw [← hf x (by simp) y hy, hk])
      simp [hx, hnone]

/-- Elements whose keys tell which element of a list they come from agree if the lists do. -/
theorem flatMap {key' : β → ι} {f : α → List β} (h : SameByKey key xs ys) (part : ι → κ)
    (hf : ∀ x ∈ xs, ∀ y ∈ f x, part (key' y) = key x) : SameByKey key' (xs.flatMap f) (ys.flatMap f) := by
  intro k
  rw [filter_flatMap part hf, filter_flatMap part fun x hx => hf x (h.mem_iff.2 hx), h]

end SameByKey

/-! ## Indexes of lists that agree -/

/-- The two keys a type is filed by. -/
def filingKey (x : TypeRef × TypeDef) : TypeKey × TypeKey := (x.1.definitionKey, x.2.key)

theorem sameByKey_filings {ds es : List TypeDef} (h : SameByKey TypeDef.key ds es) (refs : TypeDef → List TypeRef) :
    SameByKey filingKey (filings refs ds) (filings refs es) := by
  refine h.flatMap Prod.snd fun d _ x hx => ?_
  obtain ⟨r, -, rfl⟩ := List.mem_map.1 hx
  rfl

theorem TypeFile.Holds.eq {f f' : TypeFile} {xs ys : List (TypeRef × TypeDef)} (h : f.Holds xs) (h' : f'.Holds ys)
    (hsame : SameByKey filingKey xs ys) : f = f' := by
  have hunder : ∀ k, f.under k = f'.under k := by
    intro k
    refine (h.sets k).ext (h'.sets k) fun k' => ?_
    have hfind := hsame.find?_eq (k, k')
    simp only [filingKey, Prod.mk.injEq, Bool.decide_and, ← TypeRef.filedUnder_iff] at hfind
    rw [h.found, h'.found, hfind]
  refine h.sorted.ext h'.sorted fun k => ?_
  have hlisted : (f.get? k).isSome = (f'.get? k).isSome := by rw [h.listed, h'.listed, hsame.any_eq]
  have hk := hunder k
  simp only [TypeFile.under] at hk
  cases hf : f.get? k with
  | none => cases hf' : f'.get? k <;> simp_all
  | some s => cases hf' : f'.get? k <;> simp_all

namespace TypeIndex

variable {x x' : TypeIndex} {ds es : List TypeDef}

theorem Catalogues.types_eq (h : x.Catalogues ds) (h' : x'.Catalogues es) (hsame : SameByKey TypeDef.key ds es) :
    x.types = x'.types := by
  refine h.sorted.ext h'.sorted fun k => ?_
  rw [h.types, h'.types, hsame.reverse.find?_eq]

theorem Catalogues.inheritance_eq (h : x.Catalogues ds) (h' : x'.Catalogues es)
    (hsame : SameByKey TypeDef.key ds es) : x.inheritance = x'.inheritance :=
  h.inheritance.eq h'.inheritance (sameByKey_filings hsame _)

theorem Catalogues.interfaces_eq (h : x.Catalogues ds) (h' : x'.Catalogues es)
    (hsame : SameByKey TypeDef.key ds es) : x.interfaces = x'.interfaces :=
  h.interfaces.eq h'.interfaces (sameByKey_filings hsame _)

/-- Types scoped to their modules agree key by key if the modules agree name by name. -/
theorem sameByKey_indexed {ms ns : List Module} (h : SameByKey Module.name ms ns)
    (hscopes : ∀ m ∈ ms, ∀ d ∈ m.allTypes, d.scope = m.name) :
    SameByKey TypeDef.key (indexed ms) (indexed ns) := by
  have hsame : SameByKey TypeDef.key (ms.flatMap fun m => m.allTypes.filter (!·.isCompilerGenerated))
      (ns.flatMap fun m => m.allTypes.filter (!·.isCompilerGenerated)) :=
    h.flatMap TypeKey.scope fun m hm d hd => hscopes m hm d (List.mem_of_mem_filter hd)
  simpa only [indexed, List.filter_flatMap] using hsame

end TypeIndex

/-! ## What usages and entry points look at -/

namespace Usage

variable {g g' : Registry}

theorem ofType_congr (h : g.index.interfaces = g'.index.interfaces) : ofType g = ofType g' := by
  funext o d
  simp only [ofType, ofDeclaration, Registry.implementersOf, h]

theorem expand_congr (h : g.index.interfaces = g'.index.interfaces) : expand g = expand g' := by
  funext o r
  cases r <;> simp only [expand, ofType_congr h]

theorem expandAll_congr (h : g.index.interfaces = g'.index.interfaces) (o : Options) (rs : List TypeRef)
    (p : Progress) (successors : RefSet) : expandAll g o rs p successors = expandAll g' o rs p successors := by
  induction rs generalizing p successors with
  | nil => rfl
  | cons r rs ih => simp only [expandAll, expand_congr h, ih]

theorem run_congr (h : g.index.interfaces = g'.index.interfaces) (o : Options) (levels level : Nat)
    (frontier : RefSet) (p : Progress) : run g o levels level frontier p = run g' o levels level frontier p := by
  induction levels generalizing level frontier p with
  | zero => rfl
  | succ levels ih => simp only [run, expandAll_congr h, ih]

end Usage

namespace Registry

/-- What a search asks depends on the interfaces that are filed, on the modules that the resolver knows and on how
many references there are. -/
theorem findUsages_congr {g g' : Registry} (hinterfaces : g.index.interfaces = g'.index.interfaces)
    (hmodules : g.resolver.modules = g'.resolver.modules) (hreferences : g.references.length = g'.references.length)
    (o : Options) (seeds : List TypeRef) : g.findUsages o seeds = g'.findUsages o seeds := by
  have hlevels : (g.outlook seeds).length = (g'.outlook seeds).length := by
    simp only [outlook, List.length_append, hinterfaces, hmodules, hreferences]
  simp only [findUsages, hlevels, Usage.run_congr hinterfaces]

/-- Two registries in which the same is found. -/
structure Alike (g g' : Registry) : Prop where
  types : g.index.types = g'.index.types
  inheritance : g.index.inheritance = g'.index.inheritance
  interfaces : g.index.interfaces = g'.index.interfaces
  resolver : g.resolver = g'.resolver
  references : g.references.length = g'.references.length

theorem Alike.usages {g g' : Registry} (h : Alike g g') (o : Options) (seeds : List TypeRef) :
    (g.usages o seeds).value.1 = (g'.usages o seeds).value.1 := by
  have hfind : g.findUsages o seeds = g'.findUsages o seeds :=
    findUsages_congr h.interfaces (congrArg (·.modules) h.resolver) h.references o seeds
  show ((g.findUsages o seeds).run g.resolver).value.1 = ((g'.findUsages o seeds).run g'.resolver).value.1
  rw [hfind, h.resolver]

theorem Alike.entryPoints {g g' : Registry} (h : Alike g g') (patterns : List String) :
    g.entryPoints patterns = g'.entryPoints patterns := by
  have hderived : g.derivedFrom = g'.derivedFrom := by
    funext k
    simp only [derivedFrom, h.inheritance]
  have himplementers : g.implementersOf = g'.implementersOf := by
    funext k
    simp only [implementersOf, h.interfaces]
  have hroots : g.rootsOf = g'.rootsOf := by
    funext d
    simp only [rootsOf, implementersBelow, himplementers, h.interfaces]
  have hwhere : g.entryPointsWhere = g'.entryPointsWhere := by
    funext chosen
    simp only [entryPointsWhere, Registry.types, inheritedFrom, h.types, h.inheritance, hderived, hroots]
  simp only [Registry.entryPoints, hwhere]

/-! ## Calls leave no trace -/

/-- What a registry can be asked. -/
inductive Call where
  | resolve (r : TypeRef)
  | resolveMethod (m : MethodRef)
  | usages (o : Options) (seeds : List TypeRef)
  | dependencyGraph (o : Options) (entries : List TypeDef)
  | entryPoints (patterns : List String)

/-- The registry after a call. Entry points are found without asking the resolver. -/
def call (g : Registry) : Call → Registry
  | .resolve r => (g.ask (Resolver.resolve r)).value.2
  | .resolveMethod m => (g.ask (Resolver.resolveMethod m)).value.2
  | .usages o seeds => (g.usages o seeds).value.2
  | .dependencyGraph o entries => (g.dependencyGraph o entries).value.2
  | .entryPoints _ => g

/-- A call changes nothing but what the resolver remembers. -/
theorem call_eq (g : Registry) (c : Call) :
    ∃ s : Resolver, s.modules = g.resolver.modules ∧ g.call c = { g with resolver := s } := by
  cases c with
  | resolve r => exact ⟨_, Resolver.resolve_sameModules r g.resolver, rfl⟩
  | resolveMethod m => exact ⟨_, Resolver.resolveMethod_sameModules m g.resolver, rfl⟩
  | usages o seeds => exact ⟨_, Resolver.findUsages_sameModules g o seeds g.resolver, rfl⟩
  | dependencyGraph o entries => exact ⟨_, Resolver.findUsages_sameModules g o _ g.resolver, rfl⟩
  | entryPoints patterns => exact ⟨g.resolver, rfl, rfl⟩

/-- **What a registry was asked does not show once a module is added.** -/
theorem add_call (g : Registry) (c : Call) (m : Module) : (g.call c).add m = g.add m := by
  obtain ⟨s, hs, hcall⟩ := g.call_eq c
  have hforgets : s.register m = g.resolver.register m := by
    simp only [Resolver.register, Resolver.clearCache, hs]
  rw [hcall]
  simp only [add, register, hforgets]
  rfl

theorem add_calls (g : Registry) (cs : List Call) (m : Module) : (cs.foldl call g).add m = g.add m := by
  induction cs generalizing g with
  | nil => rfl
  | cons c cs ih => rw [List.foldl_cons, ih, add_call]

/-! ## Sessions -/

/-- The registry after calls and then a module. -/
def addAfter (g : Registry) (x : List Call × Module) : Registry :=
  let g := x.1.foldl call g
  (g.add x.2).getD g

/-- The registry made by adding modules, each after some calls. -/
def session (xs : List (List Call × Module)) : Registry := xs.foldl addAfter empty

/-- The registry of modules that was not asked anything. -/
def ofModules (ms : List Module) : Registry where
  modules := ms
  index := TypeIndex.ofModules ms
  resolver := { modules := ms.foldl (fun s m => s.insert m.name m) ∅ }

theorem addAfter_ofModules {ms : List Module} {m : Module} (hnew : m.name ∉ ms.map Module.name) (cs : List Call) :
    (ofModules ms).addAfter (cs, m) = ofModules (ms ++ [m]) := by
  have hcontains : (ofModules ms).containsModule m.name = false := by
    rw [containsModule, List.any_eq_false]
    intro n hn hname
    exact hnew (List.mem_map.2 ⟨n, hn, by simpa using hname⟩)
  have hadd : (ofModules ms).add m = some (ofModules (ms ++ [m])) := by
    rw [add, register, hcontains]
    simp only [ofModules, refresh, TypeIndex.ofModules_append, List.foldl_append, Resolver.register,
      Resolver.clearCache, Bool.false_eq_true, if_false, Option.map_some, List.foldl_cons, List.foldl_nil]
  simp only [addAfter, add_calls, hadd, Option.getD_some]

/-- **A session leaves the registry of its modules.** -/
theorem session_eq_ofModules {xs : List (List Call × Module)} (hnames : ((xs.map (·.2)).map Module.name).Nodup) :
    session xs = ofModules (xs.map (·.2)) := by
  -- from any modules on whose names are not among those to come
  have hrun : ∀ ms : List Module, ((ms ++ xs.map (·.2)).map Module.name).Nodup →
      xs.foldl addAfter (ofModules ms) = ofModules (ms ++ xs.map (·.2)) := by
    clear hnames
    induction xs with
    | nil => simp
    | cons x xs ih =>
      intro ms hnodup
      have hnew : x.2.name ∉ ms.map Module.name := by
        intro hmem
        rw [List.map_append] at hnodup
        exact (List.nodup_append.1 hnodup).2.2 _ hmem _ (by simp) rfl
      rw [List.foldl_cons, addAfter_ofModules hnew, ih _ (by simpa using hnodup)]
      simp
  exact hrun [] (by simpa using hnames)

/-- **Registries of the same modules are alike**, if types are scoped to modules that are named apart. -/
theorem alike_ofModules {ms ns : List Module} (hperm : ms.Perm ns) (hnames : (ms.map Module.name).Nodup)
    (hscopes : ∀ m ∈ ms, ∀ d ∈ m.allTypes, d.scope = m.name) : Alike (ofModules ms) (ofModules ns) := by
  have hmodules : SameByKey Module.name ms ns := .of_perm hperm hnames
  have htypes := TypeIndex.sameByKey_indexed hmodules hscopes
  have hms := TypeIndex.catalogues_ofModules ms
  have hns := TypeIndex.catalogues_ofModules ns
  refine ⟨hms.types_eq hns htypes, hms.inheritance_eq hns htypes, hms.interfaces_eq hns htypes, ?_, ?_⟩
  · have hknown : ms.foldl (fun s m => s.insert m.name m) (∅ : SortedMap String Module) =
        ns.foldl (fun s m => s.insert m.name m) ∅ := by
      refine (SortedMap.sorted_empty.foldl_alter ms).ext (SortedMap.sorted_empty.foldl_alter ns) fun n => ?_
      show (ms.foldl (fun s m => s.insert m.name m) (∅ : SortedMap String Module)).get? n =
        (ns.foldl (fun s m => s.insert m.name m) (∅ : SortedMap String Module)).get? n
      rw [SortedMap.get?_foldl_insert, SortedMap.get?_foldl_insert, hmodules.reverse.find?_eq]
    simp only [ofModules, hknown]
  · exact (((hperm.flatMap_right _).flatMap_right _).flatMap_right _).length_eq

/-- **The order of loading does not show.** Modules that are named apart and whose types have the module as
their scope are added in two orders, each module after any calls. Both registries hold all modules, list
the same types, have the same inheritance and interface maps, and find the same usages and the same entry
points in the same order. -/
theorem session_order {xs ys : List (List Call × Module)} (hperm : (xs.map (·.2)).Perm (ys.map (·.2)))
    (hnames : ((xs.map (·.2)).map Module.name).Nodup)
    (hscopes : ∀ m ∈ xs.map (·.2), ∀ d ∈ m.allTypes, d.scope = m.name) :
    (session xs).modules = xs.map (·.2) ∧ (session ys).modules = ys.map (·.2) ∧
      (session xs).types = (session ys).types ∧
      (session xs).index.inheritance = (session ys).index.inheritance ∧
      (session xs).index.interfaces = (session ys).index.interfaces ∧
      (∀ o seeds, ((session xs).usages o seeds).value.1 = ((session ys).usages o seeds).value.1) ∧
      ∀ patterns, (session xs).entryPoints patterns = (session ys).entryPoints patterns := by
  have hnames' : ((ys.map (·.2)).map Module.name).Nodup := (hperm.map Module.name).nodup_iff.1 hnames
  rw [session_eq_ofModules hnames, session_eq_ofModules hnames']
  have halike := alike_ofModules hperm hnames hscopes
  exact ⟨rfl, rfl, congrArg SortedMap.values halike.types, halike.inheritance, halike.interfaces, halike.usages,
    halike.entryPoints⟩

/-- An interface of goods. -/
def goods : Module := { name := "Goods", types := [.newInterface "Goods" "Item" "Goods"] }

/-- Apples, which are goods. -/
def stall : Module where
  name := "Stall"
  types := [{ TypeDef.newClass "Stall" "Apple" "Stall" with interfaces := [.plain "Goods" "Item" "Goods"] }]

def apple : TypeRef := .plain "Stall" "Apple" "Stall"

/-- Apples are asked for before there are goods. -/
def goodsLast : List (List Call × Module) :=
  [([], stall), ([.usages {} [apple], .entryPoints ["Item"]], goods)]

def goodsFirst : List (List Call × Module) := [([], goods), ([.resolve apple], stall)]

theorem session_order_market :
    ((session goodsLast).usages {} [apple]).value.1.length = 2 ∧
      ((session goodsLast).usages {} [apple]).value.1 = ((session goodsFirst).usages {} [apple]).value.1 ∧
      (session goodsLast).types = (session goodsFirst).types ∧
      (session goodsLast).entryPoints ["Item"] = (session goodsFirst).entryPoints ["Item"] := by
  have hperm : (goodsLast.map (·.2)).Perm (goodsFirst.map (·.2)) := List.Perm.swap _ _ _
  obtain ⟨-, -, htypes, -, -, husages, hentries⟩ := session_order hperm (by decide +kernel) (by decide +kernel)
  exact ⟨by decide +kernel, husages {} [apple], htypes, hentries ["Item"]⟩

end Registry

end Coupling
