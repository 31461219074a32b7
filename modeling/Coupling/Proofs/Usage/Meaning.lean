/-
Usages without a memory.

What looking into types reports, told by what references mean and not by what a
resolver is asked: `relationsOf` and `successorsOf` for a reference, `explore`
for level after level. In a registry whose references and those looked into
belong to one family, the search that asks the resolver yields just that
(`findUsages_yields`), whatever was kept before.
-/
import Coupling.Proofs.Registry.Contents
import Coupling.Proofs.Search

namespace Coupling.Usage

open Resolving

/-! ## Relations of one type -/

/-- Whether a target is reported: the filter accepts it, and a plain one means a definition. -/
def reports (s : Resolver) (o : Options) (t : TypeRef) : Bool :=
  o.types.accepts t && (!t.isPlain || (s.meaning t).isSome)

/-- The relations whose targets are reported. -/
def reportedBy (s : Resolver) (o : Options) (rs : List Relation) : List Relation :=
  rs.filter fun r => r.target.any (reports s o)

/-- The relation an instruction states. -/
def relationAt (s : Resolver) (source : TypeRef) (i : Instruction) : Option Relation :=
  match i.operand with
  | .type t => some ((Relation.between source t RelationKind.typeReference).foundAt i)
  | .method m =>
    some (((Relation.between source m.declaring (accessKind (s.methodMeaning m))).withTargetMethod m).foundAt i)
  | _ => none

/-- The relations of a method: its parameters, what it returns, and its instructions. -/
def relationsOfMethod (s : Resolver) (source : TypeRef) (m : MethodDef) : List Relation :=
  m.params.map (fun p => (Relation.between source p.type RelationKind.methodParameter).inMethod m) ++
    (Relation.between source m.returns RelationKind.methodReturnType).inMethod m ::
      (((m.body.map Body.explorable).getD []).filterMap (relationAt s source)).map (·.inMethod m)

/-- The methods of a type that are looked into. -/
def methodsSeen (o : Options) (d : TypeDef) : List MethodDef :=
  d.methods.filter fun m => m.hasBody && o.methods.accepts m

/-- The relations of a type that are reported. -/
def relationsOfType (g : Registry) (o : Options) (d : TypeDef) : List Relation :=
  reportedBy g.resolver o
    (ofDeclaration g d ++ (methodsSeen o d).flatMap (relationsOfMethod g.resolver d.reference))

/-- The relations that looking into a reference reports. -/
def relationsOf (g : Registry) (o : Options) : TypeRef → List Relation
  | .genericParameter name owner constraints =>
    reportedBy g.resolver o (constraints.map
      (Relation.between (.genericParameter name owner constraints) · RelationKind.genericConstraint))
  | .genericInstance element arguments =>
    reportedBy g.resolver o
      (Relation.between (.genericInstance element arguments) element RelationKind.genericDefinition ::
        arguments.map
          (Relation.between (.genericInstance element arguments) · RelationKind.genericParameter))
  | .array .. | .byReference _ | .pointer _ | .functionPointer _ => []
  | .plain ns name scope => ((g.resolver.meaning (.plain ns name scope)).map (relationsOfType g o)).getD []

/-- Where looking into a reference leads: the reported constraints of a generic parameter, the reported
element and arguments of an instance, the element of an array or a by-reference type, nowhere for
pointers, and what a type uses for a plain reference that means it. -/
def successorsOf (g : Registry) (o : Options) : TypeRef → List TypeRef
  | .array element _ | .byReference element => [element]
  | .plain ns name scope => (relationsOf g o (.plain ns name scope)).filterMap (·.target)
  | .genericParameter name owner constraints =>
    (relationsOf g o (.genericParameter name owner constraints)).filterMap (·.target)
  | .genericInstance element arguments =>
    (relationsOf g o (.genericInstance element arguments)).filterMap (·.target)
  | .pointer _ | .functionPointer _ => []

/-! ## Where relations lead -/

variable {F : TypeRef → Prop} {s : Resolver}

theorem operand_mem_references {m : MethodDef} {i : Instruction} {t : TypeRef}
    (hi : i ∈ (m.body.map Body.explorable).getD [])
    (ht : i.operand = .type t ∨ ∃ n, i.operand = .method n ∧ n.declaring = t) : t ∈ m.references := by
  cases hbody : m.body with
  | none => simp [hbody] at hi
  | some b =>
    simp only [hbody, Option.map_some, Option.getD_some, Body.explorable, List.mem_filter] at hi
    simp only [MethodDef.references, hbody, Option.map_some, Option.getD_some, List.mem_append, List.mem_cons,
      List.mem_filterMap]
    refine .inr (.inr ⟨i, hi.1, ?_⟩)
    rcases ht with h | ⟨n, h, rfl⟩ <;> simp [h]

theorem target_of_ofDeclaration {g : Registry} {d : TypeDef} {x : Relation} {t : TypeRef}
    (hx : x ∈ ofDeclaration g d) (ht : x.target = some t) :
    t ∈ d.references ∨ ∃ e ∈ g.implementersOf d.key, e.reference = t := by
  simp only [ofDeclaration, List.mem_append, List.mem_map] at hx
  simp only [TypeDef.references, List.mem_append, List.mem_cons, List.mem_map]
  rcases hx with (((⟨b, hb, rfl⟩ | ⟨n, hn, rfl⟩) | ⟨i, hi, rfl⟩) | ⟨e, he, rfl⟩) | ⟨f, hf, rfl⟩ <;> cases ht
  · exact .inl (.inl (.inl (.inl (.inl (.inr hb)))))
  · exact .inl (.inl (.inl (.inl (.inr ⟨n, hn, rfl⟩))))
  · exact .inl (.inl (.inl (.inr hi)))
  · exact .inr ⟨e, he, rfl⟩
  · exact .inl (.inl (.inr ⟨f, hf, rfl⟩))

theorem target_of_relationAt {source : TypeRef} {m : MethodDef} {i : Instruction} {x : Relation} {t : TypeRef}
    (hi : i ∈ (m.body.map Body.explorable).getD []) (hx : relationAt s source i = some x)
    (ht : x.target = some t) : t ∈ m.references := by
  cases hop : i.operand with
  | method n =>
    simp only [relationAt, hop, Option.some.injEq] at hx
    cases hx
    cases ht
    exact operand_mem_references hi (.inr ⟨n, hop, rfl⟩)
  | type r =>
    simp only [relationAt, hop, Option.some.injEq] at hx
    cases hx
    cases ht
    exact operand_mem_references hi (.inl hop)
  | none | field | localVar | argument | target | switch | int | float | string => simp [relationAt, hop] at hx

theorem target_of_relationsOfMethod {source : TypeRef} {m : MethodDef} {x : Relation} {t : TypeRef}
    (hx : x ∈ relationsOfMethod s source m) (ht : x.target = some t) : t ∈ m.references := by
  simp only [relationsOfMethod, List.mem_append, List.mem_cons, List.mem_map, List.mem_filterMap] at hx
  rcases hx with ⟨p, hp, rfl⟩ | rfl | ⟨y, ⟨i, hi, hy⟩, rfl⟩
  · cases ht
    exact List.mem_append_left _ (List.mem_map_of_mem hp)
  · cases ht
    exact List.mem_append_right _ List.mem_cons_self
  · exact target_of_relationAt hi hy ht

/-- What a type uses is, if all types of a registry and the type itself use only references of a kind, of
that kind. -/
theorem target_of_typeRelations {g : Registry} (hg : g.Consistent) {Q : TypeRef → Prop}
    (hrefs : ∀ t ∈ g.references, Q t) {d : TypeDef} (hd : ∀ t ∈ d.references, Q t) {o : Options}
    {x : Relation} {t : TypeRef}
    (hx : x ∈ ofDeclaration g d ++ (methodsSeen o d).flatMap (relationsOfMethod s d.reference))
    (ht : x.target = some t) : Q t := by
  rcases List.mem_append.1 hx with hx | hx
  · rcases target_of_ofDeclaration hx ht with hmem | ⟨e, he, rfl⟩
    · exact hd t hmem
    · have hdecl := Registry.declared_of_mem_indexed (Registry.mem_implementersOf hg he).1
      exact hrefs _ (Registry.parts_mem_references hdecl e.self_mem_references (TypeRef.self_mem_parts _))
  · obtain ⟨m, hm, hx⟩ := List.mem_flatMap.1 hx
    exact hd t (TypeDef.method_references (List.mem_of_mem_filter hm) (target_of_relationsOfMethod hx ht))

theorem references_of_declared {g : Registry} {Q : TypeRef → Prop} (hrefs : ∀ t ∈ g.references, Q t)
    {d : TypeDef} (hd : d ∈ g.declared) : ∀ t ∈ d.references, Q t := fun _ ht =>
  hrefs _ (Registry.parts_mem_references hd ht (TypeRef.self_mem_parts _))

theorem reportedBy_subset {o : Options} {rs : List Relation} {x : Relation} (h : x ∈ reportedBy s o rs) :
    x ∈ rs :=
  List.mem_of_mem_filter h

/-- Looking into a reference leads to references it is made of, or to references of the registry. -/
theorem successorsOf_closed {g : Registry} (hg : g.Consistent) {Q : TypeRef → Prop}
    (hparts : ∀ r, Q r → ∀ p ∈ r.parts, Q p) (hrefs : ∀ t ∈ g.references, Q t) (o : Options) {r t : TypeRef}
    (hr : Q r) (ht : t ∈ successorsOf g o r) : Q t := by
  cases r with
  | genericParameter name owner constraints =>
    obtain ⟨x, hx, ht⟩ := List.mem_filterMap.1 ht
    obtain ⟨c, hc, rfl⟩ := List.mem_map.1 (reportedBy_subset hx)
    cases ht
    exact hparts _ hr _ (TypeRef.constraint_mem_parts hc)
  | genericInstance element arguments =>
    obtain ⟨x, hx, ht⟩ := List.mem_filterMap.1 ht
    rcases List.mem_cons.1 (reportedBy_subset hx) with rfl | hx
    · cases ht
      exact hparts _ hr _ TypeRef.element_mem_parts
    · obtain ⟨a, ha, rfl⟩ := List.mem_map.1 hx
      cases ht
      exact hparts _ hr _ (TypeRef.argument_mem_parts ha)
  | array element rank | byReference element =>
    obtain rfl := List.mem_singleton.1 ht
    exact hparts _ hr _ (by simp [TypeRef.parts, TypeRef.self_mem_parts])
  | pointer element | functionPointer scope => exact absurd ht List.not_mem_nil
  | plain ns name scope =>
    obtain ⟨x, hx, ht⟩ := List.mem_filterMap.1 ht
    cases hmeaning : g.resolver.meaning (.plain ns name scope) with
    | none => simp [relationsOf, hmeaning] at hx
    | some d =>
      simp only [relationsOf, hmeaning, Option.map_some, Option.getD_some] at hx
      exact target_of_typeRelations hg hrefs
        (references_of_declared hrefs (Registry.declared_of_meaning hg hmeaning)) (reportedBy_subset hx) ht

/-! ## What is asked -/

theorem resolve_yields_meaning (hF : Family F) {r : TypeRef} (hr : F r) :
    Yields F s.clearCache (Resolver.resolve r) (s.meaning r) := by
  rw [← Resolver.answer_clearCache]
  exact Resolver.resolve_yields hF hr

theorem resolveMethod_yields_meaning (hF : Family F) {m : MethodRef} (hm : F m.declaring) :
    Yields F s.clearCache (Resolver.resolveMethod m) (s.methodMeaning m) := by
  rw [← Resolver.methodAnswer_clearCache]
  exact Resolver.resolveMethod_yields hF hm

theorem isReportable_yields (hF : Family F) (o : Options) {t : TypeRef} (ht : F t) :
    Yields F s.clearCache (isReportable o t) (reports s o t) := by
  unfold isReportable reports
  cases haccepts : o.types.accepts t with
  | false => exact yields_pure false
  | true =>
    cases hplain : t.isPlain with
    | false => exact yields_pure true
    | true => exact (resolve_yields_meaning hF ht).bind (yields_pure _)

theorem reported_yields (hF : Family F) (o : Options) {rs : List Relation}
    (hrs : ∀ r ∈ rs, ∀ t, r.target = some t → F t) :
    Yields F s.clearCache (reported o rs) (reportedBy s o rs) := by
  induction rs with
  | nil => exact yields_pure []
  | cons r rs ih =>
    have hrest := ih fun x hx => hrs x (by simp [hx])
    have hdone : Yields F s.clearCache
        (do let rest ← reported o rs; pure (if r.target.any (reports s o) then r :: rest else rest))
        (reportedBy s o (r :: rs)) := by
      refine hrest.bind ?_
      simp only [reportedBy, List.filter_cons]
      exact yields_pure _
    unfold reported
    cases htarget : r.target with
    | none =>
      rw [htarget] at hdone
      exact (yields_pure false).bind hdone
    | some t =>
      rw [htarget] at hdone
      exact (isReportable_yields hF o (hrs r (by simp) t htarget)).bind hdone

theorem ofInstruction_yields (hF : Family F) (source : TypeRef) {i : Instruction}
    (hi : ∀ m, i.operand = .method m → F m.declaring) :
    Yields F s.clearCache (ofInstruction source i) (relationAt s source i) := by
  unfold ofInstruction relationAt
  cases hop : i.operand with
  | method m => exact (resolveMethod_yields_meaning hF (hi m hop)).bind (yields_pure _)
  | type t => exact yields_pure _
  | none | field | localVar | argument | target | switch | int | float | string => exact yields_pure none

theorem ofInstructions_yields (hF : Family F) (source : TypeRef) (m : MethodDef) {is : List Instruction}
    (his : ∀ i ∈ is, ∀ n, i.operand = .method n → F n.declaring) :
    Yields F s.clearCache (ofInstructions source m is)
      ((is.filterMap (relationAt s source)).map (·.inMethod m)) := by
  induction is with
  | nil => exact yields_pure []
  | cons i is ih =>
    refine (ofInstruction_yields hF source (his i (by simp))).bind ?_
    refine (ih fun j hj => his j (by simp [hj])).bind ?_
    have hcons : ((i :: is).filterMap (relationAt s source)).map (·.inMethod m) =
        ((relationAt s source i).map (·.inMethod m)).toList ++
          (is.filterMap (relationAt s source)).map (·.inMethod m) := by
      cases h : relationAt s source i <;> simp [h]
    rw [hcons]
    exact yields_pure _

theorem ofMethod_yields (hF : Family F) (source : TypeRef) {m : MethodDef} (hm : ∀ t ∈ m.references, F t) :
    Yields F s.clearCache (ofMethod source m) (relationsOfMethod s source m) :=
  (ofInstructions_yields hF source m fun _ hi _ hop => hm _ (operand_mem_references hi (.inr ⟨_, hop, rfl⟩))).bind
    (yields_pure _)

theorem ofMethods_yields (hF : Family F) (source : TypeRef) {ms : List MethodDef}
    (hms : ∀ m ∈ ms, ∀ t ∈ m.references, F t) :
    Yields F s.clearCache (ofMethods source ms) (ms.flatMap (relationsOfMethod s source)) := by
  induction ms with
  | nil => exact yields_pure []
  | cons m ms ih =>
    refine (ofMethod_yields hF source (hms m (by simp))).bind ?_
    exact (ih fun n hn => hms n (by simp [hn])).bind (yields_pure _)

theorem ofType_yields (hF : Family F) {g : Registry} (hg : g.Consistent) (hrefs : ∀ t ∈ g.references, F t)
    (o : Options) {d : TypeDef} (hd : ∀ t ∈ d.references, F t) :
    Yields F g.resolver.clearCache (ofType g o d) (relationsOfType g o d) := by
  refine (ofMethods_yields hF d.reference fun m hm t ht =>
    hd t (TypeDef.method_references (List.mem_of_mem_filter hm) ht)).bind ?_
  exact reported_yields hF o fun _ hx _ ht => target_of_typeRelations hg hrefs hd hx ht

theorem expand_yields (hF : Family F) {g : Registry} (hg : g.Consistent) (hrefs : ∀ t ∈ g.references, F t)
    (o : Options) {r : TypeRef} (hr : ∀ p ∈ r.parts, F p) :
    Yields F g.resolver.clearCache (expand g o r) ⟨relationsOf g o r, successorsOf g o r⟩ := by
  cases r with
  | genericParameter name owner constraints =>
    refine (reported_yields hF o fun x hx t ht => hr t ?_).bind (yields_pure _)
    obtain ⟨c, hc, rfl⟩ := List.mem_map.1 hx
    cases ht
    exact TypeRef.constraint_mem_parts hc
  | genericInstance element arguments =>
    refine (reported_yields hF o fun x hx t ht => hr t ?_).bind (yields_pure _)
    rcases List.mem_cons.1 hx with rfl | hx
    · cases ht
      exact TypeRef.element_mem_parts
    · obtain ⟨a, ha, rfl⟩ := List.mem_map.1 hx
      cases ht
      exact TypeRef.argument_mem_parts ha
  | array | byReference | pointer | functionPointer => exact yields_pure _
  | plain ns name scope =>
    refine (resolve_yields_meaning hF (hr _ (TypeRef.self_mem_parts _))).bind ?_
    cases hmeaning : g.resolver.meaning (.plain ns name scope) with
    | none =>
      simp only [relationsOf, successorsOf, hmeaning]
      exact yields_pure _
    | some d =>
      simp only [relationsOf, successorsOf, hmeaning, Option.map_some, Option.getD_some]
      exact (ofType_yields hF hg hrefs o
        (references_of_declared hrefs (Registry.declared_of_meaning hg hmeaning))).bind (yields_pure _)

/-! ## Sets of references -/

theorem addAll_append (s : RefSet) (xs ys : List TypeRef) : addAll s (xs ++ ys) = addAll (addAll s xs) ys :=
  List.foldl_append

theorem mem_addAll {s : RefSet} {rs : List TypeRef} :
    ∀ e ∈ (addAll s rs).entries, e ∈ s.entries ∨ ∃ r ∈ rs, e = (r.key, r) :=
  SortedMap.forall_mem_foldl_alter (f := fun r a => a.getD r) (fun _ h => .inl h)
    (fun r hr => .inr ⟨r, hr, rfl⟩) fun _ _ _ h => h

theorem keys_addAll {s : RefSet} {rs : List TypeRef} {k : TypeKey} :
    k ∈ (addAll s rs).keys ↔ k ∈ s.keys ∨ ∃ r ∈ rs, r.key = k :=
  SortedMap.mem_keys_foldl_alter

theorem mem_seedSet {rs : List TypeRef} : ∀ e ∈ (seedSet rs).entries, ∃ r ∈ rs, e = (r.key, r) :=
  SortedMap.forall_mem_foldl_alter (f := fun r _ => r) (fun _ h => absurd h List.not_mem_nil)
    (fun r hr => ⟨r, hr, rfl⟩) fun r hr _ _ => ⟨r, hr, rfl⟩

theorem keys_seedSet {rs : List TypeRef} {k : TypeKey} : k ∈ (seedSet rs).keys ↔ ∃ r ∈ rs, r.key = k :=
  SortedMap.mem_keys_foldl_alter.trans (or_iff_right List.not_mem_nil)

/-! ## Levels -/

/-- What was found when the references of a level were looked into. -/
def found (g : Registry) (o : Options) (rs : List TypeRef) (p : Progress) : Progress :=
  let (new, seen) := Search.unmet Relation.key p.seen (rs.flatMap (relationsOf g o))
  { p with relations := p.relations ++ new, seen }

/-- What was found and looked into after a level. -/
def looked (g : Registry) (o : Options) (frontier : RefSet) (p : Progress) : Progress :=
  { found g o frontier.values p with processed := frontier.keys ++ p.processed }

/-- The level after a level. -/
def following (g : Registry) (o : Options) (frontier : RefSet) (p : Progress) : RefSet :=
  nextLevel o (looked g o frontier p) (addAll ∅ (frontier.values.flatMap (successorsOf g o)))

/-- Level after level, `levels` at most. -/
def explore (g : Registry) (o : Options) : (levels : Nat) → RefSet → Progress → Progress
  | 0, _, p => p
  | levels + 1, frontier, p =>
    if frontier.isEmpty then p else explore g o levels (following g o frontier p) (looked g o frontier p)

theorem found_cons (g : Registry) (o : Options) (r : TypeRef) (rs : List TypeRef) (p : Progress) :
    found g o (r :: rs) p = found g o rs (found g o [r] p) := by
  simp [found, Search.unmet_append]

theorem expandAll_yields (hF : Family F) {g : Registry} (hg : g.Consistent) (hrefs : ∀ t ∈ g.references, F t)
    (o : Options) {rs : List TypeRef} (hrs : ∀ r ∈ rs, ∀ p ∈ r.parts, F p) (p : Progress) (successors : RefSet) :
    Yields F g.resolver.clearCache (expandAll g o rs p successors)
      (found g o rs p, addAll successors (rs.flatMap (successorsOf g o))) := by
  induction rs generalizing p successors with
  | nil =>
    simp only [found, List.flatMap_nil, Search.unmet, List.append_nil]
    exact yields_pure _
  | cons r rs ih =>
    rw [found_cons, List.flatMap_cons, addAll_append]
    refine (expand_yields hF hg hrefs o (hrs r (by simp))).bind ?_
    simp only [found, List.flatMap_singleton]
    exact ih (fun x hx => hrs x (by simp [hx])) _ _

/-- What the next level holds: new successors that the type filter accepts, under their keys. -/
theorem mem_nextLevel {o : Options} {p : Progress} {rs : List TypeRef} {e : TypeKey × TypeRef}
    (he : e ∈ (nextLevel o p (addAll ∅ rs)).entries) :
    e.2 ∈ rs ∧ e.1 = e.2.key ∧ o.types.accepts e.2 = true ∧ e.1 ∉ p.processed := by
  obtain ⟨hmem, hkeep⟩ := List.mem_filter.1 he
  rcases mem_addAll e hmem with hmem | ⟨r, hr, rfl⟩
  · exact absurd hmem List.not_mem_nil
  · simp only [Bool.and_eq_true, Bool.not_eq_true', List.contains_eq_mem, decide_eq_false_iff_not] at hkeep
    exact ⟨hr, rfl, hkeep.2, hkeep.1⟩

theorem run_yields (hF : Family F) {g : Registry} (hg : g.Consistent) (hrefs : ∀ t ∈ g.references, F t)
    (o : Options) (levels level : Nat) {frontier : RefSet}
    (hfrontier : ∀ r ∈ frontier.values, ∀ p ∈ r.parts, F p) (p : Progress) :
    Yields F g.resolver.clearCache (run g o levels level frontier p) (explore g o levels frontier p) := by
  induction levels generalizing level frontier p with
  | zero => exact yields_pure p
  | succ levels ih =>
    simp only [run, explore]
    split
    · exact yields_pure p
    · refine (expandAll_yields hF hg hrefs o hfrontier p ∅).bind ((yields_log _).bind (ih _ ?_ _))
      intro r hr
      obtain ⟨e, he, rfl⟩ := List.mem_map.1 hr
      obtain ⟨x, hx, hsucc⟩ := List.mem_flatMap.1 (mem_nextLevel he).1
      exact successorsOf_closed (Q := fun r => ∀ p ∈ r.parts, F p) hg
        (fun r hr p hp q hq => hr q (TypeRef.parts_trans hq r hp))
        (fun t ht p hp => hrefs p (Registry.parts_mem_references_of_mem ht hp)) o (hfrontier x hx) hsucc

/-- The references that can be looked into where the resolver knows the loaded modules, with repetitions. -/
def within (g : Registry) (seeds : List TypeRef) : List TypeRef := seeds.flatMap TypeRef.parts ++ g.references

theorem length_within_le (g : Registry) (seeds : List TypeRef) :
    (within g seeds).length ≤ (g.outlook seeds).length := by
  rw [Registry.outlook, List.append_assoc, List.length_append]
  exact Nat.le_add_right _ _

/-- **The search for usages yields what `explore` finds** in as many levels as there are references to
look into. -/
theorem findUsages_yields (hF : Family F) {g : Registry} (hg : g.Consistent) (hrefs : ∀ t ∈ g.references, F t)
    (o : Options) {seeds : List TypeRef} (hseeds : ∀ r ∈ seeds, ∀ p ∈ r.parts, F p) :
    Yields F g.resolver.clearCache (g.findUsages o seeds)
      (explore g o (g.outlook seeds).length (seedSet seeds) {}).relations := by
  refine (run_yields hF hg hrefs o _ 0 (fun r hr => ?_) {}).bind (yields_pure _)
  obtain ⟨e, he, rfl⟩ := List.mem_map.1 hr
  obtain ⟨x, hx, rfl⟩ := mem_seedSet e he
  exact hseeds x hx

end Coupling.Usage
