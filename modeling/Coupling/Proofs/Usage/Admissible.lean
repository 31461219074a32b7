/-
What a reported relation looks like.

Relations are stated at many places: by shapes of references, by what a definition
declares, by signatures and by instructions. Wherever one comes from, it has one
kind, and it has an offset, a source method and a target method as an instruction
gives them (`Origin.formed`). A search for usages adds nothing else and adds no key
twice, so everything it finds is admissible (`usages_admissible`), in whatever state
the registry was.
-/
import Coupling.Proofs.Usage.Origins
import Coupling.Proofs.Usage.Stages

namespace Coupling

namespace RelationKind

/-- One flag is set and no other bit, and the flag is not the one of generic parameters of methods. -/
structure IsSingle (k : RelationKind) : Prop where
  valid : k.isValid = true
  one : k.names.length = 1
  other : "METHOD_GENERIC_PARAMETER" ∉ k.names

instance (k : RelationKind) : Decidable k.IsSingle :=
  decidable_of_iff (k.isValid = true ∧ k.names.length = 1 ∧ "METHOD_GENERIC_PARAMETER" ∉ k.names)
    ⟨fun h => ⟨h.1, h.2.1, h.2.2⟩, fun h => ⟨h.valid, h.one, h.other⟩⟩

/-- The kinds of uses of methods. -/
def accesses : List RelationKind := [construction, immutableAccess, mutableAccess, unknown]

/-- The kinds of what is declared. -/
def declarations : List RelationKind :=
  [baseType, nestedType, interface, interfaceImplementation, typeReference, methodParameter, methodReturnType,
    genericConstraint, genericDefinition, genericParameter]

theorem isSingle_of_mem_accesses {k : RelationKind} (hk : k ∈ accesses) : k.IsSingle := by
  revert k
  decide +kernel

theorem isSingle_of_mem_declarations {k : RelationKind} (hk : k ∈ declarations) : k.IsSingle := by
  revert k
  decide +kernel

end RelationKind

namespace Usage

open Resolver

/-! ## One relation -/

/-- A relation has one kind. Without an instruction it has no offset and no target method; with one it has the
offset of the instruction, which has a type or a method as operand and stands in the body of the source method,
one that is looked into, and it has a target method if it is of a kind of uses of methods. -/
structure Formed (o : Options) (x : Relation) : Prop where
  kind : x.kind.IsSingle
  declared : x.instruction = none → x.offset = 0 ∧ x.targetMethod = none
  explorable : ∀ i, x.instruction = some i → i.isExplorable = true ∧ x.offset = i.offset
  sourceMethod : ∀ i, x.instruction = some i → ∃ m b, x.sourceMethod = some m ∧ o.methods.accepts m = true ∧
    m.body = some b ∧ i ∈ b.instructions
  targetMethod : ∀ i, x.instruction = some i → (x.targetMethod.isSome = true ↔ x.kind ∈ RelationKind.accesses)

variable {o : Options} {x : Relation}

theorem formed_of_declared (hkind : x.kind ∈ RelationKind.declarations) (hinstruction : x.instruction = none)
    (hmethod : x.targetMethod = none) : Formed o x := by
  have hoffset : x.offset = 0 := by simp [Relation.offset, hinstruction]
  have hnone : ∀ i, x.instruction ≠ some i := by simp [hinstruction]
  refine ⟨RelationKind.isSingle_of_mem_declarations hkind, fun _ => ⟨hoffset, hmethod⟩, ?_, ?_, ?_⟩ <;>
    exact fun i hi => absurd hi (hnone i)

theorem kind_of_ofDeclaration {g : Registry} {d : TypeDef} (hx : x ∈ ofDeclaration g d) :
    x.kind ∈ RelationKind.declarations ∧ x.instruction = none ∧ x.targetMethod = none := by
  simp only [ofDeclaration, List.mem_append, List.mem_map] at hx
  rcases hx with (((⟨b, -, rfl⟩ | ⟨n, -, rfl⟩) | ⟨i, -, rfl⟩) | ⟨e, -, rfl⟩) | ⟨f, -, rfl⟩ <;>
    simp [Relation.between, RelationKind.declarations]

theorem accessKind_mem (found : Option MethodDef) : accessKind found ∈ RelationKind.accesses := by
  cases found with
  | none => simp [accessKind, RelationKind.accesses]
  | some m =>
    simp only [accessKind]
    split
    · simp [RelationKind.accesses]
    · split <;> simp [RelationKind.accesses]

theorem mem_explorable {m : MethodDef} {i : Instruction} (hi : i ∈ (m.body.map Body.explorable).getD []) :
    ∃ b, m.body = some b ∧ i ∈ b.instructions ∧ i.isExplorable = true := by
  cases hbody : m.body with
  | none => simp [hbody] at hi
  | some b =>
    simp only [hbody, Option.map_some, Option.getD_some, Body.explorable, List.mem_filter] at hi
    exact ⟨b, rfl, hi⟩

/-- A relation that is found at an instruction of a method that is looked into. -/
theorem formed_of_found {m : MethodDef} {i : Instruction} (hkind : x.kind.IsSingle) (hm : o.methods.accepts m = true)
    (hi : i ∈ (m.body.map Body.explorable).getD []) (hinstruction : x.instruction = some i)
    (hsource : x.sourceMethod = some m)
    (htarget : x.targetMethod.isSome = true ↔ x.kind ∈ RelationKind.accesses) : Formed o x := by
  obtain ⟨b, hbody, hmem, hexplorable⟩ := mem_explorable hi
  have hoffset : x.offset = i.offset := by simp [Relation.offset, hinstruction]
  have hsame : ∀ j, x.instruction = some j → j = i := fun j hj => Option.some.inj (hj.symm.trans hinstruction)
  refine ⟨hkind, fun hnone => absurd hnone (by simp [hinstruction]), ?_, ?_, fun _ _ => htarget⟩
  · intro j hj
    rw [hsame j hj]
    exact ⟨hexplorable, hoffset⟩
  · intro j hj
    rw [hsame j hj]
    exact ⟨m, b, hsource, hm, hbody, hmem⟩

theorem OfMethod.formed {source : TypeRef} {m : MethodDef} (h : OfMethod source m x)
    (hm : o.methods.accepts m = true) : Formed o x := by
  cases h with
  | param | returns =>
    exact formed_of_declared (by simp [Relation.between, Relation.inMethod, RelationKind.declarations]) rfl rfl
  | typeOperand hi hop =>
    have hdeclared : RelationKind.typeReference ∈ RelationKind.declarations := by decide
    have hother : RelationKind.typeReference ∉ RelationKind.accesses := by decide
    exact formed_of_found (RelationKind.isSingle_of_mem_declarations hdeclared) hm hi rfl rfl
      (iff_of_false nofun hother)
  | methodOperand found hi hop =>
    have haccess := accessKind_mem found
    exact formed_of_found (RelationKind.isSingle_of_mem_accesses haccess) hm hi rfl rfl (iff_of_true rfl haccess)

/-- **Wherever a relation comes from, it is well formed.** -/
theorem Origin.formed {g : Registry} {D : TypeDef → Prop} {r : TypeRef} (h : Origin g o D r x) : Formed o x := by
  cases h with
  | constraint | element | argument =>
    exact formed_of_declared (by simp [Relation.between, RelationKind.declarations]) rfl rfl
  | declaration _ hx =>
    obtain ⟨hkind, hinstruction, hmethod⟩ := kind_of_ofDeclaration hx
    exact formed_of_declared hkind hinstruction hmethod
  | method _ hm hx =>
    have haccepts := (List.mem_filter.1 hm).2
    exact hx.formed (Bool.and_eq_true_iff.1 haccepts).2

/-! ## A search -/

/-- What was found is well formed and reported, and no key was found twice. -/
structure Admits (o : Options) (p : Progress) (s : Resolver) : Prop where
  formed : ∀ x ∈ p.relations, Formed o x
  reported : ∀ x ∈ p.relations, Reported o s x
  seen : p.seen.Perm (p.relations.map Relation.key)
  once : p.seen.Nodup

theorem admits_start (o : Options) (s : Resolver) : Admits o {} s :=
  ⟨fun _ hx => absurd hx List.not_mem_nil, fun _ hx => absurd hx List.not_mem_nil, .nil, List.nodup_nil⟩

/-- Looking into a reference adds relations that are admitted. -/
theorem Admits.expand {p : Progress} {s : Resolver} (h : Admits o p s) (g : Registry) (r : TypeRef) :
    Admits o (p.add ((Usage.expand g o r).result s).relations) ((Usage.expand g o r).after s) where
  formed x hx := by
    rcases List.mem_append.1 hx with hx | hx
    · exact h.formed x hx
    · exact (mem_relations_expand (finds_any s) (Search.mem_of_mem_unmet hx)).1.formed
  reported x hx := by
    rcases List.mem_append.1 hx with hx | hx
    · exact (h.reported x hx).mono ((expand_asks g o r).respects keeps_asking s)
    · exact (mem_relations_expand (finds_any s) (Search.mem_of_mem_unmet hx)).2
  seen := by
    refine (Search.unmet_snd_perm _ _).trans ?_
    simp only [Progress.add, List.map_append]
    exact List.perm_append_comm.trans (h.seen.append_right _)
  once := Search.nodup_unmet_snd h.once _

/-- A level keeps what was found admitted. -/
theorem Admits.next {x : Stage} (g : Registry) (h : Admits o x.progress x.memory) :
    Admits o (x.next g o).progress (x.next g o).memory := by
  have hlevel : Admits o ((x.level g o).result x.memory).1 ((x.level g o).after x.memory) :=
    expandAll_induct (P := fun p _ s => Admits o p s) (fun r _ _ _ _ hp => hp.expand g r) h
  cases hempty : x.frontier.isEmpty with
  | true =>
    rw [Stage.next_of_isEmpty hempty]
    exact h
  | false =>
    rw [Stage.next_of_not_isEmpty hempty]
    exact ⟨hlevel.formed, hlevel.reported, hlevel.seen, hlevel.once⟩

theorem admits_after (g : Registry) (o : Options) (seeds : List TypeRef) (levels : Nat) :
    Admits o (Stage.after g o seeds levels).progress (Stage.after g o seeds levels).memory :=
  Stage.after_induct (P := fun x => Admits o x.progress x.memory) (admits_start o g.resolver)
    (fun _ h => h.next g) levels

/-- A relation as a search may report it: well formed, with a target that the type filter accepts and that, if it is
plain, means a definition, whatever else is asked. -/
structure Admissible (o : Options) (s : Resolver) (x : Relation) : Prop extends Formed o x where
  target : ∃ t, x.target = some t ∧ o.types.accepts t = true ∧
    (t.isPlain = true → ∀ qs, ((Resolver.resolve t).result (s.askAll qs)).isSome = true)

theorem Reported.target {s : Resolver} (h : Reported o s x) :
    ∃ t, x.target = some t ∧ o.types.accepts t = true ∧
      (t.isPlain = true → ∀ qs, ((Resolver.resolve t).result (s.askAll qs)).isSome = true) := by
  obtain ⟨t, htarget, haccepts, hkept⟩ := h
  refine ⟨t, htarget, haccepts, fun hplain qs => ?_⟩
  obtain ⟨d, hd⟩ := hkept hplain
  rw [(resolve_of_kept ((askAll_keeps s qs).types _ _ hd)).1]
  rfl

end Usage

open Usage

/-- **Every reported relation is admissible**, and no two of them have one key, whatever the registry was asked
before and however the references in it nest. -/
theorem Registry.usages_admissible (g : Registry) (o : Options) (seeds : List TypeRef) :
    (∀ x ∈ (g.usages o seeds).value.1, Admissible o (g.usages o seeds).value.2.resolver x) ∧
      ((g.usages o seeds).value.1.map Relation.key).Nodup := by
  have h := admits_after g o seeds (g.outlook seeds).length
  rw [g.usages_value o seeds]
  refine ⟨fun x hx => ⟨h.formed x hx, (h.reported x hx).target⟩, ?_⟩
  exact h.seen.nodup_iff.1 h.once

end Coupling
