/-
Usages do not depend on the order of members.

A relation is known by where it leads and by its key (`trace`). In a registry and
in the reordered one, looking into a reference gives relations of the same traces
(`relationsOf_alike`), so the same references are reached, and the usages have
the same keys (`usages_reordered`). What it takes is that a reference is known by
its key, that instances nest less deep than they are followed, that a full name
or a signature does not stand for two definitions, and that a method's parameters
do not change places where they tell it from another method:
`usages_reordered_conditions` shows how each of these fails.
-/
import Coupling.Proofs.Registry.Reordering
import Coupling.Proofs.Resolution.Noninterference
import Coupling.Proofs.Usage.Closure

namespace Coupling

namespace Usage

/-! ## Traces -/

/-- Where a relation leads, and its key. -/
def trace (x : Relation) : Option TypeRef × RelationKey := (x.target, x.key)

@[simp] theorem trace_inMethod (x : Relation) (m : MethodDef) : trace (x.inMethod m) = trace x := rfl

/-- Whether a relation is reported shows in its trace. -/
theorem mem_trace_reportedBy {s : Resolver} {o : Options} {rs : List Relation}
    {y : Option TypeRef × RelationKey} :
    y ∈ (reportedBy s o rs).map trace ↔ y ∈ rs.map trace ∧ y.1.any (reports s o) = true := by
  simp only [reportedBy, List.mem_map, List.mem_filter]
  constructor
  · rintro ⟨x, ⟨hx, hreports⟩, rfl⟩
    exact ⟨⟨x, hx, rfl⟩, hreports⟩
  · rintro ⟨⟨x, hx, rfl⟩, hreports⟩
    exact ⟨x, ⟨hx, hreports⟩, rfl⟩

theorem trace_relationsOfMethod (s : Resolver) (source : TypeRef) (m : MethodDef) :
    (relationsOfMethod s source m).map trace =
      m.params.map (fun p => trace (Relation.between source p.type RelationKind.methodParameter)) ++
        trace (Relation.between source m.returns RelationKind.methodReturnType) ::
          (((m.body.map Body.explorable).getD []).filterMap (relationAt s source)).map trace := by
  simp [relationsOfMethod, Function.comp_def]

theorem trace_ofDeclaration (g : Registry) (d : TypeDef) :
    (ofDeclaration g d).map trace =
      d.base.toList.map (fun t => trace (Relation.between d.reference t RelationKind.baseType)) ++
      (d.nested.map TypeDef.reference).map
        (fun t => trace (Relation.between d.reference t RelationKind.nestedType)) ++
      d.interfaces.map (fun t => trace (Relation.between d.reference t RelationKind.interface)) ++
      ((g.implementersOf d.key).map TypeDef.reference).map
        (fun t => trace (Relation.between d.reference t RelationKind.interfaceImplementation)) ++
      d.fields.map (fun f => trace (Relation.between d.reference f.type RelationKind.typeReference)) := by
  simp [ofDeclaration, Function.comp_def]

/-! ## Reordered registries -/

/-- Whether the method filter does not see the order of parameters. -/
def OrderBlind (o : Options) : Prop :=
  ∀ m n : MethodDef, m.Reordered n → o.methods.accepts m = o.methods.accepts n

/-- A registry and the reordered one, where references are known by their keys and names and signatures
stand for one definition. -/
structure Twins (F : TypeRef → Prop) (g g' : Registry) : Prop where
  family : Family F
  sound : g.Sound F
  sound' : g'.Sound F
  reordered : g.Reordered g'
  unambiguous : g.Unambiguous
  references : ∀ r ∈ g.references, F r

variable {F : TypeRef → Prop} {g g' : Registry} {o : Options}

theorem Twins.meaning (h : Twins F g g') (r : TypeRef) :
    Option.Rel TypeDef.Alike (g.resolver.meaning r) (g'.resolver.meaning r) :=
  Registry.meaning_alike h.sound.consistent h.sound'.consistent h.reordered h.unambiguous r

theorem Twins.reports_eq (h : Twins F g g') (o : Options) : reports g.resolver o = reports g'.resolver o := by
  funext t
  simp only [reports, Registry.isSome_eq_of_rel (h.meaning t)]

theorem Twins.relationAt_eq (h : Twins F g g') (source : TypeRef) :
    relationAt g.resolver source = relationAt g'.resolver source := by
  funext i
  unfold relationAt
  split
  · rfl
  · rw [Registry.accessKind_alike h.sound.consistent h.sound'.consistent h.reordered h.unambiguous]
  · rfl

theorem Twins.relationsOfMethod_perm (h : Twins F g g') (source : TypeRef) {m n : MethodDef}
    (hmn : m.Reordered n) :
    ((relationsOfMethod g.resolver source m).map trace).Perm
      ((relationsOfMethod g'.resolver source n).map trace) := by
  rw [trace_relationsOfMethod, trace_relationsOfMethod, h.relationAt_eq, hmn.same]
  exact (hmn.params.map _).append_right _

theorem Twins.methods_perm (h : Twins F g g') (ho : OrderBlind o) {d e : TypeDef} (hde : d.Alike e) :
    (((methodsSeen o d).flatMap (relationsOfMethod g.resolver d.reference)).map trace).Perm
      (((methodsSeen o e).flatMap (relationsOfMethod g'.resolver e.reference)).map trace) := by
  have hseen : Matched d.MethodReordered (methodsSeen o d) (methodsSeen o e) := by
    refine hde.methods.filter fun m n hmn => ?_
    rw [ho m n hmn.toReordered, hmn.same]
    rfl
  rw [List.map_flatMap, List.map_flatMap, hde.reference]
  exact hseen.perm_flatMap fun m n hmn => h.relationsOfMethod_perm d.reference hmn.toReordered

theorem Twins.declaration_iff (h : Twins F g g') {d e : TypeDef} (hde : d.Alike e)
    {y : Option TypeRef × RelationKey} :
    y ∈ (ofDeclaration g d).map trace ↔ y ∈ (ofDeclaration g' e).map trace := by
  have hkey : e.key = d.key := by rw [TypeDef.key, hde.reference, TypeDef.key]
  have himplementers := Registry.implementers_alike h.family h.sound.consistent h.sound'.consistent h.reordered
    h.references d.key
  rw [trace_ofDeclaration, trace_ofDeclaration, hde.reference, hde.base, hkey]
  simp only [List.mem_append, (hde.nested.map _).mem_iff, (hde.interfaces.map _).mem_iff,
    (hde.fields.map _).mem_iff]
  simp only [List.mem_map (l := List.map _ (Registry.implementersOf _ _)), himplementers]

/-- A definition and one like it have relations of the same traces. -/
theorem Twins.relationsOfType_iff (h : Twins F g g') (ho : OrderBlind o) {d e : TypeDef} (hde : d.Alike e)
    {y : Option TypeRef × RelationKey} :
    y ∈ (relationsOfType g o d).map trace ↔ y ∈ (relationsOfType g' o e).map trace := by
  rw [relationsOfType, relationsOfType, mem_trace_reportedBy, mem_trace_reportedBy, h.reports_eq, List.map_append,
    List.map_append, List.mem_append, List.mem_append, h.declaration_iff hde, (h.methods_perm ho hde).mem_iff]

/-- **Looking into a reference gives relations of the same traces.** -/
theorem Twins.relationsOf_iff (h : Twins F g g') (ho : OrderBlind o) (r : TypeRef)
    {y : Option TypeRef × RelationKey} :
    y ∈ (relationsOf g o r).map trace ↔ y ∈ (relationsOf g' o r).map trace := by
  cases r with
  | plain ns name scope =>
    have hmeaning := h.meaning (.plain ns name scope)
    simp only [relationsOf]
    generalize g.resolver.meaning (.plain ns name scope) = found,
      g'.resolver.meaning (.plain ns name scope) = found' at hmeaning ⊢
    cases hmeaning with
    | none => rfl
    | some hde => exact h.relationsOfType_iff ho hde
  | genericParameter | genericInstance => simp only [relationsOf, mem_trace_reportedBy, h.reports_eq]
  | array | byReference | pointer | functionPointer => rfl

theorem mem_targets {rs : List Relation} {t : TypeRef} :
    t ∈ rs.filterMap (·.target) ↔ ∃ y ∈ rs.map trace, y.1 = some t := by
  simp [trace]

theorem Twins.successorsOf_iff (h : Twins F g g') (ho : OrderBlind o) {r t : TypeRef} :
    t ∈ successorsOf g o r ↔ t ∈ successorsOf g' o r := by
  cases r with
  | plain | genericParameter | genericInstance => simp only [successorsOf, mem_targets, h.relationsOf_iff ho]
  | array | byReference | pointer | functionPointer => rfl

theorem Reach.mono {o' : Options} {seeds seeds' : List TypeRef} (hseeds : ∀ r ∈ seeds, r ∈ seeds')
    (hstep : ∀ r t, t ∈ successorsOf g o r → o.types.accepts t = true →
      t ∈ successorsOf g' o' r ∧ o'.types.accepts t = true) {r : TypeRef}
    (hr : Reach g o seeds r) : Reach g' o' seeds' r := by
  induction hr with
  | seed hr => exact .seed (hseeds _ hr)
  | step _ ht haccepts ih =>
    obtain ⟨ht', haccepts'⟩ := hstep _ _ ht haccepts
    exact .step ih ht' haccepts'

theorem Twins.reach_iff (h : Twins F g g') (ho : OrderBlind o) {seeds seeds' : List TypeRef}
    (hseeds : seeds.Perm seeds') {r : TypeRef} : Reach g o seeds r ↔ Reach g' o seeds' r :=
  ⟨.mono (fun _ hr => hseeds.mem_iff.1 hr) fun _ _ ht haccepts => ⟨(h.successorsOf_iff ho).1 ht, haccepts⟩,
    .mono (fun _ hr => hseeds.mem_iff.2 hr) fun _ _ ht haccepts => ⟨(h.successorsOf_iff ho).2 ht, haccepts⟩⟩

theorem Closure.mem_keys {seeds : List TypeRef} {rs : List Relation} (h : Closure g o seeds rs)
    {k : RelationKey} :
    k ∈ rs.map Relation.key ↔ ∃ r, Reach g o seeds r ∧ ∃ y ∈ (relationsOf g o r).map trace, y.2 = k := by
  simp only [List.mem_map]
  constructor
  · rintro ⟨x, hx, rfl⟩
    obtain ⟨r, hr, hx⟩ := h.sound x hx
    exact ⟨r, hr, trace x, ⟨x, hx, rfl⟩, rfl⟩
  · rintro ⟨r, hr, -, ⟨x, hx, rfl⟩, rfl⟩
    exact h.complete r hr x hx

/-! ## Runs whatever is kept -/

section Kept

open Resolver Resolving

variable {s : Resolver} {ns name scope : String} {a : Option TypeDef}

/-- Where the filter accepts one plain reference and the answer for it is kept, the answer says whether it is
reported. -/
theorem isReportable_kept (ho : ∀ t, o.types.accepts t = true → t = .plain ns name scope)
    (hkept : s.types.get? (TypeRef.plain ns name scope).key = some a) (t : TypeRef) :
    (isReportable o t).result s = (o.types.accepts t && a.isSome) ∧ (isReportable o t).after s = s := by
  unfold isReportable
  cases haccepts : o.types.accepts t with
  | false => exact ⟨rfl, rfl⟩
  | true =>
    obtain rfl := ho t haccepts
    obtain ⟨hresult, hafter⟩ : (resolve (.plain ns name scope)).result s = a ∧
        (resolve (.plain ns name scope)).after s = s := rememberType_of_kept hkept
    simp only [TypeRef.isPlain, Bool.not_true, Bool.false_eq_true, if_false, result_bind, after_bind, hresult,
      hafter, result_pure, after_pure, Bool.true_and, and_self]

theorem reported_kept (ho : ∀ t, o.types.accepts t = true → t = .plain ns name scope)
    (hkept : s.types.get? (TypeRef.plain ns name scope).key = some a) (rs : List Relation) :
    (reported o rs).result s = rs.filter (fun r => r.target.any o.types.accepts && a.isSome) ∧
      (reported o rs).after s = s := by
  induction rs with
  | nil => exact ⟨rfl, rfl⟩
  | cons r rs ih =>
    unfold reported
    cases htarget : r.target with
    | none =>
      simp only [htarget, result_bind, after_bind, result_pure, after_pure, ih, List.filter_cons, Option.any_none,
        Bool.false_and, and_self]
    | some t =>
      simp only [htarget, isReportable_kept ho hkept t, result_bind, after_bind, result_pure, after_pure, ih,
        List.filter_cons, Option.any_some, and_self]

theorem ofType_kept {d : TypeDef} (ho : ∀ t, o.types.accepts t = true → t = .plain ns name scope)
    (hkept : ((ofMethods d.reference (methodsSeen o d)).after s).types.get? (TypeRef.plain ns name scope).key =
      some a) :
    (ofType g o d).result s = (ofDeclaration g d ++ (ofMethods d.reference (methodsSeen o d)).result s).filter
      fun r => r.target.any o.types.accepts && a.isSome :=
  (reported_kept ho hkept _).1

/-- A level adds to what was found. -/
theorem relations_expandAll {rs : List TypeRef} {p : Progress} {successors : RefSet} {x : Relation}
    (hx : x ∈ p.relations) :
    x ∈ ((expandAll g o rs p successors).result s).1.relations := by
  induction rs generalizing p successors s with
  | nil => exact hx
  | cons r rs ih => exact ih (List.mem_append_left _ hx)

theorem relations_run {levels level : Nat} {frontier : RefSet} {p : Progress} {x : Relation}
    (hx : x ∈ p.relations) :
    x ∈ ((run g o levels level frontier p).result s).relations := by
  induction levels generalizing level frontier p s with
  | zero => exact hx
  | succ levels ih =>
    unfold run
    split
    · exact hx
    · exact ih (relations_expandAll hx)

/-- The first level from one reference on. -/
theorem result_run_seed (g : Registry) (o : Options) (r : TypeRef) (s : Resolver) (levels : Nat) :
    let e := (expand g o r).result s
    let (new, seen) := Search.unmet Relation.key [] e.relations
    let p : Progress := ⟨new, seen, [r.key]⟩
    (run g o (levels + 1) 0 (seedSet [r]) {}).result s =
      (run g o levels 1 (nextLevel o p (addAll ∅ e.successors)) p).result ((expand g o r).after s) := rfl

/-- Something is found from a reference on if it has a relation itself. -/
theorem findUsages_eq_nil_iff {r : TypeRef} {rs : List Relation}
    (hr : (expand g o r).result s = .ofRelations rs) : (g.findUsages o [r]).result s = [] ↔ rs = [] := by
  obtain ⟨levels, hlevels⟩ : ∃ levels, (g.outlook [r]).length = levels + 1 := by
    have hself : r ∈ g.outlook [r] := by simp [Registry.outlook, TypeRef.self_mem_parts]
    exact ⟨_, (Nat.succ_pred_eq_of_pos (List.length_pos_of_mem hself)).symm⟩
  have hrun : (g.findUsages o [r]).result s = ((run g o (levels + 1) 0 (seedSet [r]) {}).result s).relations := by
    rw [← hlevels]
    rfl
  rw [hrun, result_run_seed, hr]
  cases rs with
  | nil => cases levels <;> exact iff_of_true rfl rfl
  | cons x rs =>
    refine iff_of_false (List.ne_nil_of_mem (relations_run (x := x) ?_)) (List.cons_ne_nil x rs)
    simp [Expansion.ofRelations, Search.unmet]

end Kept

end Usage

namespace Registry

open Usage Resolver Resolving

variable {F : TypeRef → Prop} {g g' : Registry}

/-- The keys of the usages of references. -/
def usageKeys (g : Registry) (o : Options) (seeds : List TypeRef) : List RelationKey :=
  (g.usages o seeds).value.1.map Relation.key

theorem usageKeys_eq_map (g : Registry) (o : Options) (seeds : List TypeRef) :
    g.usageKeys o seeds = ((g.findUsages o seeds).result g.resolver).map Relation.key := rfl

/-- **Usages do not depend on the order of members or of the references given.** -/
theorem usages_reordered (hF : Family F) (hg : Reached F g) (hg' : Reached F g') (h : g.Reordered g')
    (hrefs : ∀ r ∈ g.references, F r) (hu : g.Unambiguous) {o : Options} (ho : OrderBlind o)
    {seeds seeds' : List TypeRef} (hseeds : ∀ r ∈ seeds, ∀ p ∈ r.parts, F p) (hperm : seeds.Perm seeds') :
    (g.usageKeys o seeds).Perm (g'.usageKeys o seeds') := by
  have hrefs' : ∀ r ∈ g'.references, F r := fun r hr => hrefs r (h.references_perm.mem_iff.2 hr)
  have htwins : Twins F g g' := ⟨hF, hg.sound hF hrefs, hg'.sound hF hrefs', h, hu, hrefs⟩
  have hclosure := closure_usages hF htwins.sound hrefs o hseeds
  have hclosure' := closure_usages hF htwins.sound' hrefs' o fun r hr => hseeds r (hperm.mem_iff.2 hr)
  refine (List.perm_ext_iff_of_nodup hclosure.once hclosure'.once).2 fun k => ?_
  rw [hclosure.mem_keys, hclosure'.mem_keys]
  simp only [htwins.reach_iff ho hperm, htwins.relationsOf_iff ho]

/-- The registry of one module of types. -/
def holding (types : List TypeDef) : Registry := (empty.add { name := "Shop", types }).getD empty

/-- The shop with its types and the parameters of a method in another order. -/
def reshuffled : Registry :=
  holding [.newClass "Shop" "List" "Shop",
    basket [⟨"number", TypeRef.object⟩, ⟨"item", .plain "Shop" "Item" "Shop"⟩], .newClass "Shop" "Item" "Shop"]

theorem shopping_reordered : shopping.Reordered reshuffled := by
  refine .cons ⟨rfl, _, ⟨_, _, rfl, ?_, TypeDef.reorderedAll_refl _⟩, .swap _ _ _⟩ .nil
  refine TypeDef.reordered_iff.2 ⟨rfl, .refl _, .refl _, .of_forall₂ (.cons ?_ .nil), [], rfl, .nil⟩
  exact ⟨⟨rfl, .swap _ _ _⟩, .inr rfl⟩

theorem usages_reordered_shopping :
    shopping.Reordered reshuffled ∧
      (shopping.usageKeys {} [.plain "Shop" "Basket" "Shop", .plain "Shop" "Item" "Shop"]).Perm
        (reshuffled.usageKeys {} [.plain "Shop" "Item" "Shop", .plain "Shop" "Basket" "Shop"]) := by
  refine ⟨shopping_reordered, usages_reordered family_shopReferences ?_ ?_ shopping_reordered references_shopping
    ⟨?_, ?_⟩ (fun _ _ _ => rfl) ?_ (.swap _ _ _)⟩
  · exact .resolve (.add .empty rfl) (by simp [shopReferences])
  · exact .add .empty rfl
  · decide +kernel
  · decide +kernel
  · simp [TypeRef.parts, shopReferences]

/-! ## Where order shows -/

abbrev itemRef : TypeRef := .plain "Shop" "Item" "Shop"

abbrev counterRef : TypeRef := .plain "Shop" "Counter" "Shop"

/-- A type whose method calls one of the counter's. -/
def customer (called : MethodRef) : TypeDef :=
  { TypeDef.newClass "Shop" "Customer" "Shop" with
    methods := [
      { name := "Visit", declaring := .plain "Shop" "Customer" "Shop"
        body := some ⟨[⟨0, "call", .method called⟩]⟩ }] }

/-- A type with the given methods. -/
def counter (methods : List MethodDef) : TypeDef := { TypeDef.newClass "Shop" "Counter" "Shop" with methods }

/-- A method of the counter. -/
def serve (params : List Param) (semantics : MethodSemantics) : MethodDef :=
  { name := "Serve", declaring := counterRef, semantics, params, body := some {} }

/-- A reference to a method of the counter. -/
def served (params : List TypeRef) : MethodRef :=
  { declaring := counterRef, name := "Serve", params }

/-- A method of the counter that calls one. -/
def calling (name : String) (called : MethodRef) : MethodDef :=
  { name, declaring := counterRef, body := some ⟨[⟨0, "call", .method called⟩]⟩ }

/-- A filter for the items of the shop. -/
def items : TypeFilter :=
  ⟨fun | .plain ns name scope => ns == "Shop" && name == "Item" && scope == "Shop" | _ => false⟩

theorem eq_of_items {t : TypeRef} (h : items.accepts t = true) : t = itemRef := by
  cases t <;> simp_all [items]

/-- The shop with two methods at its counter. -/
def errands (m n : MethodDef) : Registry := holding [counter [m, n], .newClass "Shop" "Item" "Shop"]

theorem meaning_errands (m n : MethodDef) :
    (errands m n).resolver.meaning counterRef = some (counter [m, n]) := by
  cbv

theorem resolve_errands (m n : MethodDef) :
    (resolve counterRef).result (errands m n).resolver = some (counter [m, n]) := by
  rw [(resolve_plain_of_not_kept rfl).1, meaning_errands]

/-- The resolver once the counter is looked up. -/
def counterFound (m n : MethodDef) : Resolver := (resolve counterRef).after (errands m n).resolver

theorem counterFound_eq (m n : MethodDef) :
    counterFound m n = { (errands m n).resolver with
      types := SortedMap.insert ∅ counterRef.key (some (counter [m, n])) } := by
  rw [counterFound, (resolve_plain_of_not_kept rfl).2, meaning_errands]
  rfl

theorem after_calling (name₁ name₂ : String) (c₁ c₂ : MethodRef) (source : TypeRef) (s : Resolver) :
    (ofMethods source [calling name₁ c₁, calling name₂ c₂]).after s =
      (resolveMethod c₂).after ((resolveMethod c₁).after s) := rfl

theorem targets_calling (name₁ name₂ : String) (c₁ c₂ : MethodRef) (source : TypeRef) (s : Resolver) :
    ((ofMethods source [calling name₁ c₁, calling name₂ c₂]).result s).filterMap (·.target) =
      [TypeRef.void, c₁.declaring, TypeRef.void, c₂.declaring] := rfl

/-- What is kept for items after the first call decides whether there are usages. -/
theorem usageKeys_errands {name₁ name₂ : String} {c₁ c₂ : MethodRef} {a : Option TypeDef}
    (hitem : c₁.declaring = itemRef ∨ c₂.declaring = itemRef)
    (hkept : ((resolve c₁.declaring).after (counterFound (calling name₁ c₁) (calling name₂ c₂))).types.get?
      itemRef.key = some a) :
    (errands (calling name₁ c₁) (calling name₂ c₂)).usageKeys { types := items }
      [counterRef] = [] ↔ a = none := by
  set g := errands (calling name₁ c₁) (calling name₂ c₂)
  set s := counterFound (calling name₁ c₁) (calling name₂ c₂)
  let d := counter [calling name₁ c₁, calling name₂ c₂]
  have hseen : methodsSeen { types := items } d = [calling name₁ c₁, calling name₂ c₂] := rfl
  have hmethods : s.methods.get? c₁.key = none := by
    have hs : s = _ := counterFound_eq _ _
    rw [hs]
    rfl
  have hlast : ((ofMethods d.reference (methodsSeen { types := items } d)).after s).types.get?
      itemRef.key = some a := by
    rw [hseen, after_calling]
    refine (resolveMethod_keeps c₂ _).types _ _ ?_
    rw [types_after_resolveMethod hmethods]
    exact hkept
  have hexpand : (expand g { types := items } counterRef).result g.resolver =
      .ofRelations ((ofType g { types := items } d).result s) := by
    simp only [expand, result_bind, g, resolve_errands]
    rfl
  rw [ofType_kept (fun _ => eq_of_items) hlast] at hexpand
  rw [usageKeys_eq_map, List.map_eq_nil_iff, findUsages_eq_nil_iff hexpand, List.filter_eq_nil_iff]
  cases a with
  | none => simp
  | some e =>
    refine iff_of_false (fun h => ?_) (by simp)
    have hmem : itemRef ∈
        ((ofMethods d.reference (methodsSeen { types := items } d)).result s).filterMap (·.target) := by
      rw [hseen, targets_calling]
      rcases hitem with h | h <;> simp [h]
    obtain ⟨x, hx, htarget⟩ := List.mem_filterMap.1 hmem
    refine h x (List.mem_append_right _ hx) ?_
    rw [htarget]
    rfl

/-- A method that is called on items inside `depthMax` instances. -/
def opened : MethodRef := { declaring := wrapped depthMax itemRef, name := "Open" }

/-- A method that is called on items. -/
def bought : MethodRef := { declaring := itemRef, name := "Buy" }

theorem types_counterFound (m n : MethodDef) (instances : Nat) :
    (counterFound m n).types.get? (wrapped instances itemRef).key = none := by
  have hne : (wrapped instances itemRef).key ≠ counterRef.key := by
    intro h
    have hlength := congrArg (fun k : TypeKey => k.fullName.length) h
    have hitem : itemRef.fullName.length = 9 := by decide
    have hcounter : counterRef.fullName.length = 12 := by decide
    simp only [TypeRef.key, length_fullName_wrapped, hitem, hcounter] at hlength
    omega
  rw [counterFound_eq, SortedMap.get?_insert_other _ _ hne]
  rfl

theorem meaning_counterFound (m n : MethodDef) :
    (counterFound m n).meaning itemRef = some (.newClass "Shop" "Item" "Shop") := by
  rw [counterFound_eq]
  cbv

theorem types_opened (m n : MethodDef) :
    ((resolve opened.declaring).after (counterFound m n)).types.get? itemRef.key = some none :=
  (resolveAt_wrapped (types_counterFound m n) depthMax 0 (by simp)).2.2

theorem types_bought (m n : MethodDef) :
    ((resolve bought.declaring).after (counterFound m n)).types.get? itemRef.key =
      some (some (.newClass "Shop" "Item" "Shop")) := by
  have hnone : (counterFound m n).types.get? itemRef.key = none := types_counterFound m n 0
  have hafter : (resolve bought.declaring).after (counterFound m n) = _ := (resolve_plain_of_not_kept hnone).2
  rw [hafter, SortedMap.get?_insert_self, meaning_counterFound]

/-- Called first, the method of the instances hides the items. -/
theorem usageKeys_opened_first :
    (errands (calling "Ask" opened) (calling "Pay" bought)).usageKeys { types := items } [counterRef] = [] :=
  (usageKeys_errands (.inr rfl) (types_opened _ _)).2 rfl

theorem usageKeys_opened_last :
    (errands (calling "Pay" bought) (calling "Ask" opened)).usageKeys { types := items } [counterRef] ≠ [] :=
  mt (usageKeys_errands (.inl rfl) (types_bought _ _)).1 (Option.some_ne_none _)

/-- **Order shows** in the references given if two of them share a key; in types that share a full name; in
methods that share their signature, or one of which is called on `depthMax` instances; and in the parameters of
a method that has an overload, or if the method filter looks at them. -/
theorem usages_reordered_conditions :
    (¬ ∀ seeds seeds' : List TypeRef, seeds.Perm seeds' →
        ∀ k, k ∈ shopping.usageKeys {} seeds ↔ k ∈ shopping.usageKeys {} seeds') ∧
      (¬ ∀ ds es : List TypeDef, ds.Perm es →
        ∀ k, k ∈ (holding ds).usageKeys {} [counterRef] ↔ k ∈ (holding es).usageKeys {} [counterRef]) ∧
      (¬ ∀ ms ns : List MethodDef, ms.Perm ns →
        ∀ k, k ∈ (holding [customer (served []), counter ms]).usageKeys {} [.plain "Shop" "Customer" "Shop"] ↔
          k ∈ (holding [customer (served []), counter ns]).usageKeys {} [.plain "Shop" "Customer" "Shop"]) ∧
      (¬ ∀ c₁ c₂ : MethodRef,
        (∀ x ∈ c₁.declaring.followed, ∀ y ∈ c₂.declaring.followed, x.key = y.key → x = y) →
          ∀ k, k ∈ (errands (calling "Ask" c₁) (calling "Pay" c₂)).usageKeys { types := items } [counterRef] ↔
            k ∈ (errands (calling "Pay" c₂) (calling "Ask" c₁)).usageKeys { types := items } [counterRef]) ∧
      (¬ ∀ ps qs : List Param, ps.Perm qs →
        let called := served [TypeRef.object, TypeRef.void]
        let overload := serve [⟨"a", TypeRef.void⟩, ⟨"b", TypeRef.void⟩] .none
        ∀ k, k ∈ (holding [customer called, counter [serve ps .none, overload]]).usageKeys {}
              [.plain "Shop" "Customer" "Shop"] ↔
          k ∈ (holding [customer called, counter [serve qs .none, overload]]).usageKeys {}
              [.plain "Shop" "Customer" "Shop"]) ∧
      (¬ ∀ (o : Options) (ps qs : List Param), ps.Perm qs →
        ∀ k, k ∈ (holding [counter [serve ps .none]]).usageKeys o [counterRef] ↔
          k ∈ (holding [counter [serve qs .none]]).usageKeys o [counterRef]) := by
  have differ : ∀ {ks ks' : List RelationKey}, ¬ ks ⊆ ks' → ¬ ∀ k, k ∈ ks ↔ k ∈ ks' :=
    fun hsub h => hsub fun k hk => (h k).1 hk
  refine ⟨fun h => ?_, fun h => ?_, fun h => ?_, fun h => ?_, fun h => ?_, fun h => ?_⟩
  · -- a generic parameter with one constraint and with another
    let bound (name : String) := TypeRef.genericParameter "T" "Box" [.plain "Shop" name "Shop"]
    exact differ (by decide +kernel) (h [bound "Item", bound "List"] _ (.swap _ _ _))
  · -- the last of two types is found
    let self : Param := ⟨"a", counterRef⟩
    exact differ (by decide +kernel) (h [counter [], counter [serve [self] .none]] _ (.swap _ _ _))
  · -- the first of two methods is found
    exact differ (by decide +kernel) (h [serve [] .none, serve [] MethodSemantics.getter] _ (.swap _ _ _))
  · -- the items are hidden if they are looked up in the instances first
    obtain ⟨k, hk⟩ := List.exists_mem_of_ne_nil _ usageKeys_opened_last
    have hnone := (h opened bought eq_of_key_wrapped k).2 hk
    simp [usageKeys_opened_first] at hnone
  · -- no method has the parameter types in the order of the reference, and two have as many
    exact differ (by decide +kernel) (h [⟨"a", TypeRef.object⟩, ⟨"b", TypeRef.void⟩] _ (.swap _ _ _))
  · let first : MethodFilter := ⟨fun m => (m.params.head?.map (·.name)) == some "a"⟩
    let self : Param := ⟨"a", counterRef⟩
    exact differ (by decide +kernel)
      (h { types := .all, methods := first } [self, ⟨"b", TypeRef.void⟩] _ (.swap _ _ _))

end Registry

end Coupling
