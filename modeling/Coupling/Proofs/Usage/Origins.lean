/-
Where relations come from, whatever a resolver keeps.

If all definitions that a resolver keeps or can find are of one kind, so are those
it gives, and questions leave it so (`resolveAt_gives`). What looking into a
reference reports has then its origin in the shape of the reference, in what a
definition of that kind declares, or in one of its methods (`Origin`), and was
found to be reportable, which what is kept shows from then on
(`mem_relations_expand`). Nothing is asked of keys or of how deep references nest.
-/
import Coupling.Proofs.Resolution.Permanence
import Coupling.Proofs.Usage.Asking
import Coupling.Proofs.Usage.Meaning

namespace Coupling

open Resolving

/-! ## Definitions of a kind -/

namespace Resolver

variable {D : TypeDef → Prop} {s : Resolver}

/-- All definitions that are kept or can be found are of a kind. -/
structure Finds (D : TypeDef → Prop) (s : Resolver) : Prop where
  kept : ∀ k d, s.types.get? k = some (some d) → D d
  found : ∀ scope fullName d, s.definition? scope fullName = some d → D d

theorem finds_any (s : Resolver) : Finds (fun _ => True) s := ⟨fun _ _ _ => trivial, fun _ _ _ _ => trivial⟩

theorem Finds.congr {t : Resolver} (h : Finds D s) (hmodules : t.modules = s.modules) (htypes : t.types = s.types) :
    Finds D t := by
  refine ⟨fun k d hk => h.kept k d (htypes ▸ hk), fun scope fullName d hd => h.found scope fullName d ?_⟩
  rw [← hd, definition?, definition?, hmodules]

/-- A look-up that gives definitions of a kind, and leaves a resolver that does. -/
def Gives (D : TypeDef → Prop) (q : Resolving (Option TypeDef)) : Prop :=
  ∀ s, Finds D s → (∀ d, q.result s = some d → D d) ∧ Finds D (q.after s)

theorem gives_none : Gives D (pure none) := fun s h => ⟨fun d hd => by simp at hd, h⟩

theorem Finds.keepType (h : Finds D s) {k : TypeKey} {a : Option TypeDef} (ha : ∀ d, a = some d → D d) :
    (∀ d, (Resolver.keepType k a s).1 = some d → D d) ∧ Finds D (Resolver.keepType k a s).2 := by
  cases hkept : s.types.get? k with
  | some b =>
    simp only [Resolver.keepType, hkept]
    exact ⟨fun d hd => h.kept k d (hd ▸ hkept), h⟩
  | none =>
    simp only [Resolver.keepType, hkept]
    refine ⟨ha, fun k' d hd => ?_, h.found⟩
    by_cases hk : k' = k
    · subst hk
      rw [SortedMap.get?_insert_self] at hd
      exact ha d (Option.some.inj hd)
    · rw [s.types.get?_insert_other a hk] at hd
      exact h.kept k' d hd

theorem rememberType_gives {k : TypeKey} {find : Resolving (Option TypeDef)} (hfind : Gives D find) :
    Gives D (rememberType k find) := by
  intro s h
  cases hkept : s.types.get? k with
  | some a =>
    rw [(rememberType_of_kept hkept).1, (rememberType_of_kept hkept).2]
    exact ⟨fun d hd => h.kept k d (hd ▸ hkept), h⟩
  | none =>
    rw [(rememberType_of_not_kept hkept).1, (rememberType_of_not_kept hkept).2]
    exact (hfind s h).2.keepType (hfind s h).1

mutual

theorem resolveAt_gives : ∀ (r : TypeRef) (depth : Nat), Gives D (resolveAt depth r)
  | .plain ns name scope, depth => by
    refine rememberType_gives fun s h => ⟨fun d hd => ?_, h⟩
    simp only [result_bind, result_get, result_pure] at hd
    split at hd
    · simp at hd
    · exact h.found _ _ d hd
  | .genericInstance element arguments, depth => by
    refine rememberType_gives fun s h => ?_
    split
    · exact gives_none s h
    · obtain ⟨hresult, hafter⟩ := resolveAt_gives element (depth + 1) s h
      simp only [result_bind, after_bind]
      cases hfound : (resolveAt (depth + 1) element).result s with
      | none => exact gives_none _ hafter
      | some d =>
        refine ⟨fun e he => ?_, resolveAll_finds arguments (depth + 1) hafter⟩
        simp only [result_bind, result_pure] at he
        split at he
        · exact hresult e (he ▸ hfound)
        · simp at he
  | .genericParameter .., _ | .array .., _ | .byReference _, _ | .pointer _, _ | .functionPointer _, _ =>
    rememberType_gives gives_none

theorem resolveAll_finds : ∀ (rs : List TypeRef) (depth : Nat) {s : Resolver}, Finds D s →
    Finds D ((resolveAll depth rs).after s)
  | [], _, _, h => h
  | r :: rs, depth, s, h => by
    simp only [resolveAll]
    split
    · exact resolveAll_finds rs depth h
    · have hafter := (resolveAt_gives r depth s h).2
      simp only [after_bind]
      cases (resolveAt depth r).result s with
      | none => exact hafter
      | some d => exact resolveAll_finds rs depth hafter

end

theorem resolve_gives (r : TypeRef) : Gives D (resolve r) := resolveAt_gives r 0

theorem resolveMethod_finds (m : MethodRef) (h : Finds D s) : Finds D ((resolveMethod m).after s) := by
  rcases after_resolveMethod m s with hsame | ⟨hmodules, htypes⟩
  · rw [hsame]
    exact h
  · exact (resolve_gives m.declaring s h).2.congr hmodules htypes

/-- Whatever a search asks, definitions stay of a kind. -/
theorem finds_asking (D : TypeDef → Prop) : Usage.Asking fun s t => Finds D s → Finds D t where
  chains := ⟨fun _ h => h, fun _ _ _ h₁ h₂ h => h₂ (h₁ h)⟩
  resolve r s h := (resolve_gives r s h).2
  resolveMethod m _ h := resolveMethod_finds m h

end Resolver

namespace Usage

open Resolver

/-! ## Relations of a method -/

/-- The relations that a method of a type states, where a method that an instruction uses may turn out to be any. -/
inductive OfMethod (source : TypeRef) (m : MethodDef) : Relation → Prop
  | param {p : Param} : p ∈ m.params →
      OfMethod source m ((Relation.between source p.type RelationKind.methodParameter).inMethod m)
  | returns : OfMethod source m ((Relation.between source m.returns RelationKind.methodReturnType).inMethod m)
  | typeOperand {i : Instruction} {t : TypeRef} : i ∈ (m.body.map Body.explorable).getD [] → i.operand = .type t →
      OfMethod source m (((Relation.between source t RelationKind.typeReference).foundAt i).inMethod m)
  | methodOperand {i : Instruction} {n : MethodRef} (found : Option MethodDef) :
      i ∈ (m.body.map Body.explorable).getD [] → i.operand = .method n →
      OfMethod source m
        ((((Relation.between source n.declaring (accessKind found)).withTargetMethod n).foundAt i).inMethod m)

variable {source : TypeRef} {m : MethodDef} {x : Relation} {s : Resolver}

theorem mem_ofInstructions {is : List Instruction} (his : ∀ i ∈ is, i ∈ (m.body.map Body.explorable).getD [])
    (hx : x ∈ (ofInstructions source m is).result s) : OfMethod source m x := by
  induction is generalizing s with
  | nil => simp [ofInstructions] at hx
  | cons i is ih =>
    simp only [ofInstructions, result_bind, result_pure, List.mem_append, Option.mem_toList] at hx
    rcases hx with hx | hx
    · have hi := his i (by simp)
      cases hop : i.operand with
      | type t =>
        simp only [ofInstruction, hop, result_pure, Option.map_some, Option.some.injEq] at hx
        exact hx ▸ .typeOperand hi hop
      | method n =>
        simp only [ofInstruction, hop, result_bind, result_pure, Option.map_some, Option.some.injEq] at hx
        exact hx ▸ .methodOperand _ hi hop
      | none | field | localVar | argument | target | switch | int | float | string =>
        simp [ofInstruction, hop] at hx
    · exact ih (fun j hj => his j (by simp [hj])) hx

theorem mem_ofMethods {ms : List MethodDef} (hx : x ∈ (ofMethods source ms).result s) :
    ∃ m ∈ ms, OfMethod source m x := by
  induction ms generalizing s with
  | nil => simp [ofMethods] at hx
  | cons m ms ih =>
    simp only [ofMethods, ofMethod, result_bind, result_pure, List.mem_append, List.mem_cons, List.mem_map] at hx
    rcases hx with (⟨p, hp, rfl⟩ | rfl | hx) | hx
    · exact ⟨m, by simp, .param hp⟩
    · exact ⟨m, by simp, .returns⟩
    · exact ⟨m, by simp, mem_ofInstructions (fun _ hi => hi) hx⟩
    · obtain ⟨n, hn, hx⟩ := ih hx
      exact ⟨n, by simp [hn], hx⟩

/-! ## Relations that are reported -/

/-- The type filter accepts the target of a relation, and if it is plain, a definition is kept for it. -/
def Reported (o : Options) (s : Resolver) (x : Relation) : Prop :=
  ∃ t, x.target = some t ∧ o.types.accepts t = true ∧
    (t.isPlain = true → ∃ d, s.types.get? t.key = some (some d))

variable {o : Options}

theorem Reported.mono {t : Resolver} (h : Reported o s x) (hkeeps : Keeps s t) : Reported o t x := by
  obtain ⟨target, htarget, haccepts, hkept⟩ := h
  refine ⟨target, htarget, haccepts, fun hplain => ?_⟩
  obtain ⟨d, hd⟩ := hkept hplain
  exact ⟨d, hkeeps.types _ _ hd⟩

theorem reported_of_isReportable {t : TypeRef} (ht : x.target = some t)
    (h : (isReportable o t).result s = true) : Reported o ((isReportable o t).after s) x := by
  unfold isReportable at h ⊢
  cases haccepts : o.types.accepts t with
  | false => simp [haccepts] at h
  | true =>
    refine ⟨t, ht, haccepts, fun hplain => ?_⟩
    simp only [haccepts, hplain, Bool.not_true, Bool.false_eq_true, if_false, result_bind, result_pure, after_bind,
      after_pure] at h ⊢
    obtain ⟨d, hd⟩ := Option.isSome_iff_exists.1 h
    exact ⟨d, hd ▸ kept_after_resolve t s⟩

theorem mem_reported {rs : List Relation} (hx : x ∈ (reported o rs).result s) :
    x ∈ rs ∧ Reported o ((reported o rs).after s) x := by
  induction rs generalizing s with
  | nil => simp [reported] at hx
  | cons r rs ih =>
    cases htarget : r.target with
    | none =>
      simp only [reported, htarget, result_bind, after_bind, result_pure, after_pure, Bool.false_eq_true,
        if_false] at hx ⊢
      exact ⟨List.mem_cons_of_mem _ (ih hx).1, (ih hx).2⟩
    | some t =>
      simp only [reported, htarget, result_bind, after_bind, result_pure, after_pure] at hx ⊢
      split at hx
      · rename_i hreportable
        rcases List.mem_cons.1 hx with rfl | hx
        -- the relations after it are asked about later, which keeps the answer for its target
        · exact ⟨List.mem_cons_self,
            (reported_of_isReportable htarget hreportable).mono ((reported_asks o rs).respects keeps_asking _)⟩
        · exact ⟨List.mem_cons_of_mem _ (ih hx).1, (ih hx).2⟩
      · exact ⟨List.mem_cons_of_mem _ (ih hx).1, (ih hx).2⟩

/-! ## Relations of a reference -/

/-- Where the relations of a reference come from, if it means a definition of a kind. -/
inductive Origin (g : Registry) (o : Options) (D : TypeDef → Prop) : TypeRef → Relation → Prop
  | constraint {name owner : String} {constraints : List TypeRef} {c : TypeRef} : c ∈ constraints →
      Origin g o D (.genericParameter name owner constraints)
        (Relation.between (.genericParameter name owner constraints) c RelationKind.genericConstraint)
  | element {element : TypeRef} {arguments : List TypeRef} :
      Origin g o D (.genericInstance element arguments)
        (Relation.between (.genericInstance element arguments) element RelationKind.genericDefinition)
  | argument {element : TypeRef} {arguments : List TypeRef} {a : TypeRef} : a ∈ arguments →
      Origin g o D (.genericInstance element arguments)
        (Relation.between (.genericInstance element arguments) a RelationKind.genericParameter)
  | declaration {ns name scope : String} {d : TypeDef} {x : Relation} : D d → x ∈ ofDeclaration g d →
      Origin g o D (.plain ns name scope) x
  | method {ns name scope : String} {d : TypeDef} {m : MethodDef} {x : Relation} : D d → m ∈ methodsSeen o d →
      OfMethod d.reference m x → Origin g o D (.plain ns name scope) x

variable {g : Registry} {D : TypeDef → Prop} {r t : TypeRef}

/-- What looking into a reference reports has an origin, and what is kept then shows that it is reportable. -/
theorem mem_relations_expand (h : Finds D s) (hx : x ∈ ((expand g o r).result s).relations) :
    Origin g o D r x ∧ Reported o ((expand g o r).after s) x := by
  cases r with
  | genericParameter name owner constraints =>
    obtain ⟨hmem, hreported⟩ := mem_reported hx
    obtain ⟨c, hc, rfl⟩ := List.mem_map.1 hmem
    exact ⟨.constraint hc, hreported⟩
  | genericInstance element arguments =>
    simp only [expand, result_bind, result_pure, after_bind, after_pure, Expansion.ofRelations] at hx ⊢
    obtain ⟨hmem, hreported⟩ := mem_reported hx
    rcases List.mem_cons.1 hmem with rfl | hmem
    · exact ⟨.element, hreported⟩
    · obtain ⟨a, ha, rfl⟩ := List.mem_map.1 hmem
      exact ⟨.argument ha, hreported⟩
  | array | byReference | pointer | functionPointer => simp [expand] at hx
  | plain ns name scope =>
    simp only [expand, result_bind, after_bind] at hx ⊢
    cases hfound : (resolve (.plain ns name scope)).result s with
    | none => simp [hfound] at hx
    | some d =>
      simp only [hfound] at hx ⊢
      have hd : D d := (resolve_gives _ s h).1 d hfound
      obtain ⟨hmem, hreported⟩ := mem_reported hx
      refine ⟨?_, hreported⟩
      rcases List.mem_append.1 hmem with hmem | hmem
      · exact .declaration hd hmem
      · obtain ⟨m, hm, hmem⟩ := mem_ofMethods hmem
        exact .method hd hm hmem

/-- Looking into a reference leads to the element of an array or a by-reference type, or to where relations lead. -/
theorem mem_successors_expand (h : Finds D s) (ht : t ∈ ((expand g o r).result s).successors) :
    t ∈ r.parts ∨ ∃ x, Origin g o D r x ∧ x.target = some t := by
  have hofRelations : ((expand g o r).result s).successors =
      ((expand g o r).result s).relations.filterMap (·.target) →
      t ∈ r.parts ∨ ∃ x, Origin g o D r x ∧ x.target = some t := by
    intro heq
    obtain ⟨x, hx, htarget⟩ := List.mem_filterMap.1 (heq ▸ ht)
    exact .inr ⟨x, (mem_relations_expand h hx).1, htarget⟩
  cases r with
  | genericParameter | genericInstance => exact hofRelations rfl
  | array element rank | byReference element =>
    obtain rfl := List.mem_singleton.1 ht
    exact .inl (by simp [TypeRef.parts, TypeRef.self_mem_parts])
  | pointer | functionPointer => simp [expand] at ht
  | plain ns name scope =>
    refine hofRelations ?_
    simp only [expand, result_bind]
    cases (resolve (.plain ns name scope)).result s <;> rfl

end Usage

end Coupling
