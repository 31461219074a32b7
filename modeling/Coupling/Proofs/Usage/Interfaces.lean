/-
Interfaces and what implements them.

A type that declares an interface, or an instance of one, is filed under the key of
the open interface, and looking into that interface reports it. In a registry whose
modules declare their names once and with their own scopes, a reference that means a
definition is the definition's own (`reference_of_meaning`). So where a search that
accepts all types reports an interface of a type, it comes to the interface and
reports the type as an implementation of it, and an implementation that is reported
declares the interface (`interfaces_both_ways`). Relations are told apart by full
names only, so the one that is listed may go between other types of these names
(`interfaces_of_same_names`).
-/
import Coupling.Proofs.Registry.Lookups
import Coupling.Proofs.Usage.Admissible
import Coupling.Proofs.Usage.Closure

namespace Coupling

/-- A reference is another one, or an instance of it. -/
def TypeRef.Instantiates (t i : TypeRef) : Prop := t = i ∨ ∃ arguments, t = .genericInstance i arguments

theorem TypeRef.Instantiates.definitionKey {t i : TypeRef} (h : t.Instantiates i) (hi : i.isPlain = true) :
    t.definitionKey = i.key := by
  rcases h with rfl | ⟨arguments, rfl⟩
  · cases t with
    | plain => rfl
    | genericParameter | genericInstance | array | byReference | pointer | functionPointer => cases hi
  · rfl

namespace RelationKind

/-- The kinds of relations between interfaces and the types that declare them. -/
def ofInterfaces : List RelationKind := [interface, interfaceImplementation]

/-- The kinds of what methods state. -/
def ofMethods : List RelationKind := methodParameter :: methodReturnType :: typeReference :: accesses

theorem not_ofInterfaces : ∀ k ∈ ofMethods ++
    [baseType, nestedType, genericConstraint, genericDefinition, genericParameter], k ∉ ofInterfaces := by
  decide

end RelationKind

namespace Usage

variable {g : Registry} {o : Options} {seeds : List TypeRef} {r t i : TypeRef} {d : TypeDef} {x : Relation}

/-! ## Where interfaces are reported -/

theorem kind_of_relationsOfMethod {s : Resolver} {source : TypeRef} {m : MethodDef}
    (hx : x ∈ relationsOfMethod s source m) : x.kind ∈ RelationKind.ofMethods := by
  simp only [relationsOfMethod, List.mem_append, List.mem_cons, List.mem_map, List.mem_filterMap] at hx
  rcases hx with ⟨p, -, rfl⟩ | rfl | ⟨y, ⟨i, -, hy⟩, rfl⟩
  · exact .head _
  · exact .tail _ (.head _)
  · unfold relationAt at hy
    split at hy <;> cases hy
    · exact .tail _ (.tail _ (.head _))
    · exact .tail _ (.tail _ (.tail _ (accessKind_mem _)))

/-- A declaration states its interfaces and, if it is one, the types that are filed under it. -/
def OfInterfaces (g : Registry) (d : TypeDef) (x : Relation) : Prop :=
  (∃ t ∈ d.interfaces, x = Relation.between d.reference t RelationKind.interface) ∨
    ∃ e ∈ g.implementersOf d.key, x = Relation.between d.reference e.reference RelationKind.interfaceImplementation

theorem ofInterfaces_of_ofDeclaration (hx : x ∈ ofDeclaration g d) (hkind : x.kind ∈ RelationKind.ofInterfaces) :
    OfInterfaces g d x := by
  simp only [ofDeclaration, List.mem_append, List.mem_map] at hx
  rcases hx with (((⟨b, -, rfl⟩ | ⟨n, -, rfl⟩) | ⟨t, ht, rfl⟩) | ⟨e, he, rfl⟩) | ⟨f, -, rfl⟩
  · exact absurd hkind (RelationKind.not_ofInterfaces RelationKind.baseType (by decide))
  · exact absurd hkind (RelationKind.not_ofInterfaces RelationKind.nestedType (by decide))
  · exact .inl ⟨t, ht, rfl⟩
  · exact .inr ⟨e, he, rfl⟩
  · exact absurd hkind (RelationKind.not_ofInterfaces RelationKind.typeReference (by decide))

/-- Interfaces and implementations are reported for plain references, and by what their definitions declare. -/
theorem exists_ofInterfaces (hx : x ∈ relationsOf g o r) (hkind : x.kind ∈ RelationKind.ofInterfaces) :
    r.isPlain = true ∧ ∃ d, g.resolver.meaning r = some d ∧ OfInterfaces g d x := by
  cases r with
  | genericParameter name owner constraints =>
    obtain ⟨c, -, rfl⟩ := List.mem_map.1 (reportedBy_subset hx)
    exact absurd hkind (RelationKind.not_ofInterfaces RelationKind.genericConstraint (by decide))
  | genericInstance element arguments =>
    rcases List.mem_cons.1 (reportedBy_subset hx) with rfl | hx
    · exact absurd hkind (RelationKind.not_ofInterfaces RelationKind.genericDefinition (by decide))
    · obtain ⟨a, -, rfl⟩ := List.mem_map.1 hx
      exact absurd hkind (RelationKind.not_ofInterfaces RelationKind.genericParameter (by decide))
  | array | byReference | pointer | functionPointer => exact absurd hx List.not_mem_nil
  | plain ns name scope =>
    cases hmeaning : g.resolver.meaning (.plain ns name scope) with
    | none => simp [relationsOf, hmeaning] at hx
    | some d =>
      simp only [relationsOf, hmeaning, Option.map_some, Option.getD_some] at hx
      refine ⟨rfl, d, rfl, ?_⟩
      rcases List.mem_append.1 (reportedBy_subset hx) with hx | hx
      · exact ofInterfaces_of_ofDeclaration hx hkind
      · obtain ⟨m, -, hx⟩ := List.mem_flatMap.1 hx
        have hmethod := kind_of_relationsOfMethod hx
        exact absurd hkind (RelationKind.not_ofInterfaces _ (List.mem_append_left _ hmethod))

/-- The target of what is reported for a reference is reported, and comes next. -/
theorem target_of_relationsOf (hx : x ∈ relationsOf g o r) :
    ∃ t, x.target = some t ∧ reports g.resolver o t = true ∧ t ∈ successorsOf g o r := by
  have hreports : x.target.any (reports g.resolver o) = true := by
    cases r with
    | genericParameter | genericInstance => exact (List.mem_filter.1 hx).2
    | array | byReference | pointer | functionPointer => exact absurd hx List.not_mem_nil
    | plain ns name scope =>
      cases hmeaning : g.resolver.meaning (.plain ns name scope) with
      | none => simp [relationsOf, hmeaning] at hx
      | some d =>
        simp only [relationsOf, hmeaning, Option.map_some, Option.getD_some] at hx
        exact (List.mem_filter.1 hx).2
  obtain ⟨t, ht, hreports⟩ := (Option.any_eq_true _ _).1 hreports
  refine ⟨t, ht, hreports, ?_⟩
  cases r with
  | plain | genericParameter | genericInstance => exact List.mem_filterMap.2 ⟨x, hx, ht⟩
  | array | byReference | pointer | functionPointer => exact absurd hx List.not_mem_nil

/-- A search comes to what is reported for what it came to. -/
theorem Reach.target (hr : Reach g o seeds r) (hx : x ∈ relationsOf g o r) (ht : x.target = some t) :
    Reach g o seeds t := by
  obtain ⟨t', ht', hreports, hsucc⟩ := target_of_relationsOf hx
  obtain rfl := Option.some.inj (ht.symm.trans ht')
  exact .step hr hsucc (Bool.and_eq_true_iff.1 hreports).1

/-- A search comes through an instance to its element. -/
theorem Reach.instantiates (hr : Reach g o seeds t) (hi : t.Instantiates i) (hreports : reports g.resolver o i = true) :
    Reach g o seeds i := by
  rcases hi with rfl | ⟨arguments, rfl⟩
  · exact hr
  · exact hr.target (x := Relation.between _ i RelationKind.genericDefinition)
      (List.mem_filter.2 ⟨List.mem_cons_self, hreports⟩) rfl

/-! ## Both ways -/

section

variable (hg : g.Consistent) (hc : Coherent g seeds)

theorem own_mem_within (hd : d ∈ g.declared) : d.reference ∈ within g seeds :=
  List.mem_append_right _ (Registry.parts_mem_references hd d.self_mem_references (TypeRef.self_mem_parts _))

include hc

/-- What is filed under a definition's key is its reference or an instance of it. -/
theorem instantiates_of_definitionKey (hd : d ∈ g.declared) (ht : t ∈ within g seeds)
    (hkey : t.definitionKey = d.key) : t.Instantiates d.reference := by
  cases t with
  | genericInstance element arguments =>
    have helement := parts_within ht TypeRef.element_mem_parts
    exact .inr ⟨arguments, by rw [hc _ helement _ (own_mem_within hd) hkey]⟩
  | plain | genericParameter | array | byReference | pointer | functionPointer =>
    exact .inl (hc _ ht _ (own_mem_within hd) hkey)

include hg

/-- A plain reference that means a definition is its own, where definitions have their module as scope. -/
theorem reference_of_meaning (hproper : ∀ m ∈ g.modules, m.Proper) (hr : r ∈ within g seeds)
    (hplain : r.isPlain = true) (hmeaning : g.resolver.meaning r = some d) : d.reference = r := by
  have hdeclared := Registry.declared_of_meaning hg hmeaning
  refine hc _ (own_mem_within hdeclared) _ hr ?_
  cases r with
  | plain ns name scope =>
    obtain ⟨m, hm, hd⟩ := Option.bind_eq_some_iff.1 hmeaning
    rw [hg.knows] at hm
    have hname : d.fullName = (TypeRef.plain ns name scope).fullName := by simpa using List.find?_some hd
    have hscope : d.scope = scope := by
      rw [(hproper m (List.mem_of_find?_eq_some hm)).scopes d (List.mem_reverse.1 (List.mem_of_find?_eq_some hd))]
      simpa using List.find?_some hm
    exact congrArg₂ TypeKey.mk hname hscope
  | genericParameter | genericInstance | array | byReference | pointer | functionPointer => cases hplain

/-- For an interface the types that declare it are reported. -/
theorem implementation_mem_relationsOf {e : TypeDef} (haccepts : ∀ t, o.types.accepts t = true)
    (he : g.resolver.meaning e.reference = some e) (hmeaning : g.resolver.meaning d.reference = some d)
    (hgenerated : d.isCompilerGenerated = false) (ht : t ∈ d.interfaces) (hkey : t.definitionKey = e.key) :
    Relation.between e.reference d.reference RelationKind.interfaceImplementation ∈ relationsOf g o e.reference := by
  have hdeclared := Registry.declared_of_meaning hg hmeaning
  have hindexed : d ∈ TypeIndex.indexed g.modules := List.mem_filter.2 ⟨hdeclared, by simp [hgenerated]⟩
  obtain ⟨d', hd', hkey'⟩ := Registry.exists_mem_implementersOf hg hindexed ht
  -- what is filed under the interface may be another definition, but it has the same reference
  have hsame : d'.reference = d.reference := by
    have hdeclared' := Registry.declared_of_mem_indexed (Registry.mem_implementersOf hg hd').1
    exact hc _ (own_mem_within hdeclared') _ (own_mem_within hdeclared) hkey'
  have hstated : Relation.between e.reference d.reference RelationKind.interfaceImplementation ∈
      ofDeclaration g e := by
    simp only [ofDeclaration, List.mem_append, List.mem_map]
    exact .inl (.inr ⟨d', hkey ▸ hd', by rw [hsame]⟩)
  have hrelations : relationsOf g o e.reference = relationsOfType g o e := by
    simp only [TypeDef.reference, relationsOf] at he ⊢
    rw [he]
    rfl
  rw [hrelations]
  refine List.mem_filter.2 ⟨List.mem_append_left _ hstated, ?_⟩
  simp [Relation.between, reports, haccepts, hmeaning]

/-- Where an interface of a type is reported, the search comes to the open interface, and the type is reported
there. -/
theorem implementation_of_interface (hproper : ∀ m ∈ g.modules, m.Proper)
    (haccepts : ∀ t, o.types.accepts t = true) (hr : Reach g o seeds r) (hx : x ∈ relationsOf g o r)
    (hkind : x.kind = RelationKind.interface) :
    ∃ d t, g.resolver.meaning x.source = some d ∧ x.target = some t ∧ t ∈ d.interfaces ∧
      (d.isCompilerGenerated = false → ∀ i : TypeRef, i.isPlain = true → t.Instantiates i →
        (t.isPlain = false → (g.resolver.meaning i).isSome = true) →
          Reach g o seeds i ∧
            Relation.between i x.source RelationKind.interfaceImplementation ∈ relationsOf g o i) := by
  obtain ⟨hplain, d, hmeaning, ⟨t, ht, rfl⟩ | ⟨e, -, rfl⟩⟩ := exists_ofInterfaces hx (by rw [hkind]; decide)
  · obtain rfl := reference_of_meaning hg hc hproper (hr.mem_within hg) hplain hmeaning
    refine ⟨d, t, hmeaning, rfl, ht, fun hgenerated i hi hinstance hresolves => ?_⟩
    -- a plain target is reported only if it means something
    have hsome : (g.resolver.meaning i).isSome = true := by
      rcases hinstance with rfl | ⟨arguments, rfl⟩
      · obtain ⟨t', ht', hreports, -⟩ := target_of_relationsOf hx
        obtain rfl := Option.some.inj ht'
        simpa [reports, haccepts, hi] using hreports
      · exact hresolves rfl
    have hreach : Reach g o seeds i :=
      (hr.target hx rfl).instantiates hinstance (by simp [reports, haccepts, hsome])
    obtain ⟨e, he⟩ := Option.isSome_iff_exists.1 hsome
    obtain rfl := reference_of_meaning hg hc hproper (hreach.mem_within hg) hi he
    exact ⟨hreach, implementation_mem_relationsOf hg hc haccepts he hmeaning hgenerated ht (hinstance.definitionKey hi)⟩
  · exact absurd hkind (by decide : RelationKind.interfaceImplementation ≠ RelationKind.interface)

/-- What is reported as an implementation of an interface declares it. -/
theorem interface_of_implementation (hx : x ∈ relationsOf g o r)
    (hkind : x.kind = RelationKind.interfaceImplementation) :
    ∃ i ∈ g.declared, ∃ d ∈ g.declared, x.source = i.reference ∧ x.target = some d.reference ∧
      ∃ t ∈ d.interfaces, t.Instantiates i.reference := by
  obtain ⟨-, i, hmeaning, ⟨t, -, rfl⟩ | ⟨d, hd, rfl⟩⟩ := exists_ofInterfaces hx (by rw [hkind]; decide)
  · exact absurd hkind (by decide : RelationKind.interface ≠ RelationKind.interfaceImplementation)
  · have hi := Registry.declared_of_meaning hg hmeaning
    obtain ⟨hindexed, t, ht, hkey⟩ := Registry.mem_implementersOf hg hd
    have hdeclared := Registry.declared_of_mem_indexed hindexed
    have hreference : t ∈ d.references := by simp [TypeDef.references, ht]
    refine ⟨i, hi, d, hdeclared, rfl, rfl, t, ht, instantiates_of_definitionKey hc hi ?_ hkey⟩
    exact List.mem_append_right _ (Registry.parts_mem_references hdeclared hreference (TypeRef.self_mem_parts _))

end

end Usage

namespace Registry

open Usage Resolver

variable {F : TypeRef → Prop} {g : Registry}

/-- A definition is what its own reference means, where each module declares its names once. -/
theorem meaning_reference (hknows : g.Knows) (hapart : (g.modules.map Module.name).Nodup)
    (hproper : ∀ m ∈ g.modules, m.Proper) {d : TypeDef} (hd : d ∈ g.declared) :
    g.resolver.meaning d.reference = some d := by
  have hresolves := resolve_reference_of_once hknows hapart (fun m hm => (hproper m hm).once _) hd
  rw [← hresolves]
  exact (resolve_plain_of_not_kept (t := g.resolver.clearCache) rfl).1.symm

/-- No definition but that of a reference has its full name. -/
def NamesOne (g : Registry) (r : TypeRef) : Prop := ∀ d ∈ g.declared, d.fullName = r.fullName → d.reference = r

/-- **Interfaces are reported both ways, up to full names.** Let a registry be given whose references, and the
references it was asked for, belong to one family, and whose modules declare their full names once and with the module
as scope. In usages that are found with all types accepted, the source of an interface means a type that declares its
target. If that type is not made by a compiler, and the target is a plain `i` or an instance of a plain `i` that means
something, there is an implementation between the full names of `i` and of the source, and it goes from `i` to the
source itself if these are the only ones of their names. The target of an implementation means a type that declares
the source or an instance of it. -/
theorem interfaces_both_ways (hF : Family F) (hg : Reached F g) (hrefs : ∀ r ∈ g.references, F r)
    (hproper : ∀ m ∈ g.modules, m.Proper) {o : Options} (haccepts : ∀ t, o.types.accepts t = true)
    {seeds : List TypeRef} (hseeds : ∀ r ∈ seeds, ∀ p ∈ r.parts, F p) :
    let found := (g.usages o seeds).value.1
    (∀ x ∈ found, x.kind = RelationKind.interface →
      ∃ d t, g.resolver.meaning x.source = some d ∧ x.target = some t ∧ t ∈ d.interfaces ∧
        (d.isCompilerGenerated = false → ∀ i : TypeRef, i.isPlain = true → t.Instantiates i →
          (t.isPlain = false → (g.resolver.meaning i).isSome = true) →
            ∃ y ∈ found, y.kind = RelationKind.interfaceImplementation ∧ y.source.fullName = i.fullName ∧
              y.target.map TypeRef.fullName = some x.source.fullName ∧
              (g.NamesOne i → g.NamesOne x.source → y.source = i ∧ y.target = some x.source))) ∧
      ∀ y ∈ found, y.kind = RelationKind.interfaceImplementation →
        ∃ r d, y.target = some r ∧ g.resolver.meaning r = some d ∧ ∃ t ∈ d.interfaces, t.Instantiates y.source := by
  intro found
  have hsound := hg.sound hF hrefs
  have hcoherent := coherent_of_family hF hrefs hseeds
  have hclosure : Closure g o seeds found := closure_usages hF hsound hrefs o hseeds
  refine ⟨fun x hx hkind => ?_, fun y hy hkind => ?_⟩
  · obtain ⟨r, hr, hx⟩ := hclosure.sound x hx
    obtain ⟨d, t, hmeaning, htarget, ht, himplementation⟩ :=
      implementation_of_interface hsound.consistent hcoherent hproper haccepts hr hx hkind
    refine ⟨d, t, hmeaning, htarget, ht, fun hgenerated i hi hinstance hresolves => ?_⟩
    obtain ⟨hreach, hmem⟩ := himplementation hgenerated i hi hinstance hresolves
    obtain ⟨y, hy, hkey⟩ := hclosure.complete i hreach _ hmem
    have hykind : y.kind = RelationKind.interfaceImplementation := congrArg RelationKey.kind hkey
    have hsource : y.source.fullName = i.fullName := congrArg RelationKey.source hkey
    have htarget : y.target.map TypeRef.fullName = some x.source.fullName := congrArg RelationKey.target hkey
    refine ⟨y, hy, hykind, hsource, htarget, fun hi hx => ?_⟩
    obtain ⟨r', -, hy⟩ := hclosure.sound y hy
    obtain ⟨e, he, f, hf, hesource, hftarget, -⟩ :=
      interface_of_implementation hsound.consistent hcoherent hy hykind
    rw [hesource] at hsource ⊢
    rw [hftarget] at htarget ⊢
    exact ⟨hi e he hsource, congrArg some (hx f hf (Option.some.inj htarget))⟩
  · obtain ⟨r, -, hy⟩ := hclosure.sound y hy
    obtain ⟨i, hi, d, hd, hsource, htarget, ht⟩ :=
      interface_of_implementation hsound.consistent hcoherent hy hkind
    exact ⟨d.reference, d, htarget, meaning_reference hsound.consistent.knows hg.apart hproper hd, hsource ▸ ht⟩

abbrev storeRef (scope : String) : TypeRef := .plain "Shop" "Store" scope

abbrev storeInterface (scope : String) : TypeRef := .plain "Shop" "IStore" scope

/-- The interface of stores that are made for stores. -/
abbrev storeInstance (scope : String) : TypeRef := .genericInstance (storeInterface scope) [storeRef scope]

/-- A module with a store and its interface, of which the store declares some reference. -/
def stocked (scope : String) (declared : TypeRef) : Module where
  name := scope
  types :=
    [.newInterface "Shop" "IStore" scope, { TypeDef.newClass "Shop" "Store" scope with interfaces := [declared] }]

/-- What occurs in stocked modules. -/
def storeReferences : List TypeRef :=
  [storeRef "App", storeInterface "App", storeInstance "App", storeRef "Lib", storeInterface "Lib"]

theorem family_storeReferences : Family (· ∈ storeReferences) := by
  refine .of_nodup_keys ?_ (by decide +kernel) (by decide)
  simp [storeReferences, TypeRef.followed, TypeRef.followedOfList, TypeRef.isGenericParameter]

/-- A registry with a store that declares an instance of its interface. -/
def stock : Registry := (empty.add (stocked "App" (storeInstance "App"))).getD empty

theorem namesOne_stock : stock.NamesOne (storeInterface "App") ∧ stock.NamesOne (storeRef "App") := by
  have hdeclared : stock.declared = (stocked "App" (storeInstance "App")).types := rfl
  simp only [NamesOne, hdeclared, stocked, List.forall_mem_cons]
  refine ⟨⟨fun _ => rfl, fun h => ?_, by simp⟩, fun h => ?_, fun _ => rfl, by simp⟩
  · exact absurd h (by decide)
  · exact absurd h (by decide)

theorem interfaces_both_ways_stock :
    ∃ y ∈ (stock.usages { types := .all } [storeRef "App"]).value.1,
      y.kind = RelationKind.interfaceImplementation ∧ y.source = storeInterface "App" ∧
        y.target = some (storeRef "App") := by
  have hrefs : stock.references =
      [storeInterface "App", storeRef "App", storeInstance "App", storeInterface "App", storeRef "App"] := rfl
  have hseeds : ∀ r ∈ [storeRef "App"], ∀ p ∈ r.parts, p ∈ storeReferences := by
    simp [TypeRef.parts, storeReferences]
  obtain ⟨hboth, -⟩ := interfaces_both_ways (g := stock) (o := { types := .all }) family_storeReferences
    (.add .empty rfl) (by simp [hrefs, storeReferences]) (by decide +kernel) (fun _ => rfl) hseeds
  have hx : Relation.between (storeRef "App") (storeInstance "App") RelationKind.interface ∈
      (stock.usages { types := .all } [storeRef "App"]).value.1 := .head _
  obtain ⟨d, t, hmeaning, htarget, -, himplementation⟩ := hboth _ hx rfl
  obtain rfl := Option.some.inj htarget
  obtain rfl := Option.some.inj hmeaning
  obtain ⟨y, hy, hkind, -, -, hexact⟩ :=
    himplementation rfl (storeInterface "App") rfl (.inr ⟨_, rfl⟩) fun _ => rfl
  exact ⟨y, hy, hkind, hexact namesOne_stock.1 namesOne_stock.2⟩

/-- Two modules with a store and an interface of the same names. -/
def branches : Registry :=
  ((empty.add (stocked "App" (storeInterface "App"))).bind (·.add (stocked "Lib" (storeInterface "Lib")))).getD empty

/-- **An implementation of the same names may be reported in its place.** Where two modules have a store and an
interface of the same names, and the interface of the one is looked into before that of the other, the usages tell
that the store of the other declares its interface, but not that it implements it. -/
theorem interfaces_of_same_names :
    let seeds := [storeRef "App", storeInterface "Lib"]
    let found := (branches.usages { types := .all } seeds).value.1
    Family (· ∈ storeReferences) ∧ Reached (· ∈ storeReferences) branches ∧
      (∀ r ∈ branches.references, r ∈ storeReferences) ∧ (∀ m ∈ branches.modules, m.Proper) ∧
      (∀ r ∈ seeds, ∀ p ∈ r.parts, p ∈ storeReferences) ∧
      (∃ x ∈ found, x.kind = RelationKind.interface ∧ x.source = storeRef "App" ∧
        x.target = some (storeInterface "App")) ∧
      (branches.resolver.meaning (storeRef "App")).map TypeDef.isCompilerGenerated = some false ∧
      ¬ ∃ y ∈ found, y.kind = RelationKind.interfaceImplementation ∧ y.source = storeInterface "App" ∧
        y.target = some (storeRef "App") := by
  intro seeds found
  have hfound : found =
      [Relation.between (storeInterface "Lib") (storeRef "Lib") RelationKind.interfaceImplementation,
        Relation.between (storeRef "App") (storeInterface "App") RelationKind.interface] := rfl
  have hrefs : branches.references =
      [storeInterface "App", storeRef "App", storeInterface "App", storeInterface "Lib", storeRef "Lib",
        storeInterface "Lib"] := rfl
  have hreached : Reached (· ∈ storeReferences) branches :=
    .add (m := stocked "Lib" (storeInterface "Lib"))
      (.add (m := stocked "App" (storeInterface "App")) .empty rfl) rfl
  refine ⟨family_storeReferences, hreached, by simp [hrefs, storeReferences], by decide +kernel, ?_, ?_, rfl, ?_⟩
  · simp [seeds, TypeRef.parts, storeReferences]
  · rw [hfound]
    exact ⟨_, .tail _ (.head _), rfl, rfl, rfl⟩
  · rw [hfound]
    simp [Relation.between]

end Registry

end Coupling
