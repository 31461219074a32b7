/-
Types without a name.

Whether a type has a name is asked of the name it is defined under. For a type that
is not nested this is what follows the namespace. For a nested one it is the name of
the type around it, a `/` and its own, and that is never blank. So a type without a
name is found among those that are not nested, and nowhere else
(`typeWithoutName_iff`); what nested types are called, blank or not, only has to
keep full names apart (`succeeds_renameNested`).
-/
import Coupling.Proofs.Image.Bodies

namespace Coupling

/-- A fault in what a type holds: a reference, a method or an instruction. -/
def Malformed.OfMember : Malformed → Prop
  | .referenceWithoutName | .instanceWithoutArguments | .arrayOfRankZero => True
  | .methodWithoutName _ | .offsetOverflow _ => True
  | .moduleWithoutName | .typeWithoutName _ | .declaredTwice _ _ | .emptyFile _ => False

open Malformed (OfMember)

/-! ## Faults of members -/

namespace TypeRefImage

theorem failsOnly_named (name scope : String) : FailsOnly OfMember (named name scope) := by
  unfold named
  split
  · exact .error trivial
  · exact .ok _

mutual

theorem failsOnly_toRef (scope : String) : ∀ r : TypeRefImage, FailsOnly OfMember (r.toRef scope)
  | .own name => failsOnly_named name scope
  | .plain name other => failsOnly_named name (other.getD scope)
  | .genericParameter name owner constraints => by
    rw [toRef]
    exact (failsOnly_toRefs scope constraints).bind fun _ => .pure _
  | .genericInstance element arguments => by
    rw [toRef]
    split
    · exact .throw_bind trivial _
    · exact (failsOnly_toRef scope element).bind fun _ => (failsOnly_toRefs scope arguments).bind fun _ => .pure _
  | .array element rank => by
    rw [toRef]
    split
    · exact .throw_bind trivial _
    · exact (failsOnly_toRef scope element).bind fun _ => .pure _
  | .byReference element => by
    rw [toRef]
    exact (failsOnly_toRef scope element).bind fun _ => .pure _
  | .pointer element => by
    rw [toRef]
    exact (failsOnly_toRef scope element).bind fun _ => .pure _
  | .functionPointer => .ok _

theorem failsOnly_toRefs (scope : String) : ∀ rs : List TypeRefImage, FailsOnly OfMember (toRefs scope rs)
  | [] => .ok _
  | r :: rs => by
    rw [toRefs]
    exact (failsOnly_toRef scope r).bind fun _ => (failsOnly_toRefs scope rs).bind fun _ => .pure _

end

end TypeRefImage

open TypeRefImage (failsOnly_toRef failsOnly_toRefs)

theorem GenericParamImage.failsOnly_toRef (scope owner : String) (p : GenericParamImage) :
    FailsOnly OfMember (p.toRef scope owner) := (failsOnly_toRefs scope p.constraints).bind fun _ => .pure _

theorem OperandImage.failsOnly_toOperand (scope : String) (o : OperandImage) :
    FailsOnly OfMember (o.toOperand scope) := by
  cases o with
  | type r => exact (failsOnly_toRef scope r).bind fun _ => .pure _
  | method declaring name returns params =>
    have hrest : ∀ returns : TypeRef, FailsOnly OfMember (do
        return Operand.method ⟨← declaring.toRef scope, name, returns, ← TypeRefImage.toRefs scope params⟩) :=
      fun returns => (failsOnly_toRef scope declaring).bind fun _ => (failsOnly_toRefs scope params).bind fun _ => .pure _
    cases returns with
    | none => exact hrest TypeRef.void
    | some r => exact (failsOnly_toRef scope r).bind hrest
  | field declaring name type =>
    exact (failsOnly_toRef scope declaring).bind fun _ => (failsOnly_toRef scope type).bind fun _ => .pure _
  | localVar | argument | target | switch | int | float | string => exact .ok _

namespace InstructionImage

theorem failsOnly_toOperand (scope : String) (i : InstructionImage) : FailsOnly OfMember (i.toOperand scope) := by
  unfold toOperand
  cases i.operand with
  | none => exact .ok _
  | some o => exact o.failsOnly_toOperand scope

theorem failsOnly_decodeFrom (scope : String) (next : Nat) (is : List InstructionImage) :
    FailsOnly OfMember (decodeFrom scope next is) := by
  induction is generalizing next with
  | nil => exact .ok _
  | cons i is ih =>
    rw [decodeFrom_cons]
    refine (failsOnly_toOperand scope i).bind fun o => ?_
    cases o.nextOffset? (i.offset.getD next) with
    | none => exact .error trivial
    | some stop =>
      rw [Option.elim_some, map_eq_pure_bind]
      exact (ih stop).bind fun _ => .pure _

end InstructionImage

namespace MethodImage

theorem failsOnly_withCode (scope : String) (m : MethodImage) (draft : MethodDraft) :
    FailsOnly OfMember (m.withCode scope draft) := by
  unfold withCode
  cases m.isAbstract with
  | true => exact .pure _
  | false =>
    cases m.body with
    | none => exact .pure _
    | some is => exact ((InstructionImage.failsOnly_decodeFrom scope 0 is).bind fun _ => .pure _).bind fun _ => .pure _

theorem failsOnly_toDraft (scope declaring : String) (m : MethodImage) :
    FailsOnly OfMember (m.toDraft scope declaring) := by
  have hparam : ∀ p ∈ m.params, FailsOnly OfMember (do return (⟨p.name, ← p.type.toRef scope⟩ : Param)) := fun p _ =>
    (failsOnly_toRef scope p.type).bind fun _ => .pure _
  unfold toDraft
  cases Text.isBlank m.name with
  | true => exact .throw_bind trivial _
  | false =>
    cases m.returns
    -- what follows the return type does not depend on it
    all_goals
      refine FailsOnly.bind ?_ fun _ => (FailsOnly.mapM hparam).bind fun _ =>
        (FailsOnly.mapM fun p _ => p.failsOnly_toRef scope _).bind fun _ => m.failsOnly_withCode scope _
    case none => exact .pure _
    case some r => exact failsOnly_toRef scope r

end MethodImage

/-! ## Faults of types -/

namespace TypeImage

theorem toDef_of_blank {scope ns name : String} (h : Text.isBlank name = true) (t : TypeImage) :
    t.toDef scope ns name = .error (.typeWithoutName scope) := by
  obtain ⟨own, kind, isAbstract, isSealed, base, interfaces, genericParams, attributes, fields, methods, nested⟩ := t
  rw [toDef, if_pos h]
  rfl

mutual

/-- **A type that is defined under a name has only the faults of members**, also those of nested types. -/
theorem failsOnly_toDef (scope ns : String) : ∀ (t : TypeImage) {name : String}, Text.isBlank name = false →
    FailsOnly OfMember (t.toDef scope ns name)
  | ⟨own, kind, isAbstract, isSealed, base, interfaces, genericParams, attributes, fields, methods, nested⟩, name, h => by
    have hbase : FailsOnly OfMember (base.mapM (·.toRef scope)) := by
      cases base with
      | none => exact .pure _
      | some r => exact (failsOnly_toRef scope r).bind fun _ => .pure _
    have hfield : ∀ f ∈ fields, FailsOnly OfMember (do return (⟨f.name, ← f.type.toRef scope⟩ : Field)) := fun f _ =>
      (failsOnly_toRef scope f.type).bind fun _ => .pure _
    rw [toDef, if_neg (by simp [h])]
    exact hbase.bind fun _ => (failsOnly_toRefs scope interfaces).bind fun _ =>
      (failsOnly_toRefs scope attributes).bind fun _ =>
      (FailsOnly.mapM fun p _ => p.failsOnly_toRef scope _).bind fun _ => (FailsOnly.mapM hfield).bind fun _ =>
      (FailsOnly.mapM fun m _ => m.failsOnly_toDraft scope _).bind fun _ =>
      (failsOnly_toNested scope ns name nested).bind fun _ => .pure _

theorem failsOnly_toNested (scope ns outer : String) : ∀ ts : List TypeImage,
    FailsOnly OfMember (toNested scope ns outer ts)
  | [] => .ok _
  | t :: ts => by
    rw [toNested]
    exact (failsOnly_toDef scope ns t (isBlank_nestedName outer t.name)).bind fun _ =>
      (failsOnly_toNested scope ns outer ts).bind fun _ => .pure _

end

theorem toTopDef_eq_typeWithoutName {module s : String} {t : TypeImage} :
    t.toTopDef module = .error (.typeWithoutName s) ↔
      Text.isBlank (splitFullName t.name).2 = true ∧ s = module := by
  unfold toTopDef
  cases hblank : Text.isBlank (splitFullName t.name).2 with
  | true =>
    dsimp only
    rw [toDef_of_blank hblank]
    simp [eq_comm]
  | false =>
    simp only [Bool.false_eq_true, false_and, iff_false]
    intro h
    exact failsOnly_toDef module _ t hblank _ h

/-! ## Other names for nested types -/

mutual

/-- The type, with all types that are nested in it renamed. -/
def renameNested (f : String → String) : TypeImage → TypeImage
  | ⟨name, kind, isAbstract, isSealed, base, interfaces, genericParams, attributes, fields, methods, nested⟩ =>
    ⟨name, kind, isAbstract, isSealed, base, interfaces, genericParams, attributes, fields, methods,
      renameAll f nested⟩

def renameAll (f : String → String) : List TypeImage → List TypeImage
  | [] => []
  | t :: ts => { t.renameNested f with name := f t.name } :: renameAll f ts

end

theorem name_renameNested (f : String → String) (t : TypeImage) : (t.renameNested f).name = t.name := by
  cases t
  rw [renameNested]

/-- What a type is called has no part in whether it is well formed. -/
theorem wellFormed_rename (t : TypeImage) (name : String) : { t with name := name }.WellFormed ↔ t.WellFormed :=
  (wellFormed_iff _).trans (wellFormed_iff t).symm

theorem forall_withNested_rename (t : TypeImage) (name : String) :
    (∀ u ∈ { t with name := name }.withNested, u.WellFormed) ↔ ∀ u ∈ t.withNested, u.WellFormed := by
  obtain ⟨own, kind, isAbstract, isSealed, base, interfaces, genericParams, attributes, fields, methods, nested⟩ := t
  rw [withNested, withNested, List.forall_mem_cons, List.forall_mem_cons]
  exact and_congr_left fun _ => wellFormed_rename ⟨own, kind, isAbstract, isSealed, base, interfaces, genericParams,
    attributes, fields, methods, nested⟩ name

mutual

theorem forall_withNested_renameNested (f : String → String) : ∀ t : TypeImage,
    (∀ u ∈ (t.renameNested f).withNested, u.WellFormed) ↔ ∀ u ∈ t.withNested, u.WellFormed
  | ⟨own, kind, isAbstract, isSealed, base, interfaces, genericParams, attributes, fields, methods, nested⟩ => by
    rw [renameNested, withNested, withNested, List.forall_mem_cons, List.forall_mem_cons,
      forall_withNestedAll_renameAll f nested, wellFormed_iff, wellFormed_iff]

theorem forall_withNestedAll_renameAll (f : String → String) : ∀ ts : List TypeImage,
    (∀ u ∈ withNestedAll (renameAll f ts), u.WellFormed) ↔ ∀ u ∈ withNestedAll ts, u.WellFormed
  | [] => by rw [renameAll]
  | t :: ts => by
    rw [renameAll, withNestedAll, withNestedAll, List.forall_mem_append, List.forall_mem_append,
      forall_withNested_rename, forall_withNested_renameNested f t, forall_withNestedAll_renameAll f ts]

end

end TypeImage

namespace ModuleImage

/-- The image, with all nested types renamed. -/
def renameNested (f : String → String) (m : ModuleImage) : ModuleImage :=
  { m with types := m.types.map (·.renameNested f) }

/-- **An image in which nested types get other names is converted, if the full names are still distinct.** -/
theorem succeeds_renameNested {m : ModuleImage} (h : Succeeds m.toModule) (f : String → String) :
    Succeeds (m.renameNested f).toModule ↔ ((m.renameNested f).types.flatMap TypeImage.topFullNames).Nodup := by
  have hwell := (succeeds_toModule m).1 h
  rw [succeeds_toModule]
  constructor
  · intro hrenamed
    exact hrenamed.distinct
  · intro hdistinct
    refine ⟨hwell.name, ?_, ?_, hdistinct⟩
    · intro u hu
      obtain ⟨t, ht, rfl⟩ := List.mem_map.1 hu
      rw [TypeImage.name_renameNested]
      exact hwell.typeNames t ht
    · have hnested : ∀ t ∈ m.types, ∀ u ∈ (t.renameNested f).withNested, u.WellFormed := fun t ht =>
        (TypeImage.forall_withNested_renameNested f t).2 fun u hu =>
          hwell.types u (List.mem_flatMap.2 ⟨t, ht, hu⟩)
      simpa only [renameNested, List.forall_mem_flatMap, List.forall_mem_map] using hnested

/-! ## The first type without a name -/

theorem declare_ne_typeWithoutName {module s : String} {seen names : List String} :
    declare module seen names ≠ .error (.typeWithoutName s) := by
  induction names generalizing seen with
  | nil => simp [declare]
  | cons n names ih =>
    rw [declare]
    split
    · simp
    · exact ih

theorem toDefs_cons_eq_typeWithoutName {module s : String} {seen : List String} {t : TypeImage} {ts : List TypeImage} :
    toDefs module seen (t :: ts) = .error (.typeWithoutName s) ↔ t.toTopDef module = .error (.typeWithoutName s) ∨
      Succeeds (t.toTopDef module) ∧ ∃ seen', declare module seen t.topFullNames = .ok seen' ∧
        toDefs module seen' ts = .error (.typeWithoutName s) := by
  have hnames : ∀ d, t.toTopDef module = .ok d → d.withNested.map TypeDef.fullName = t.topFullNames := fun d hd =>
    TypeImage.fullNames_of_toDef t hd
  rw [toDefs, bind_eq_error]
  refine or_congr_right ?_
  constructor
  · intro h
    obtain ⟨d, hd, h⟩ := h
    rw [hnames d hd, bind_eq_error] at h
    rcases h with h | ⟨seen', hdeclare, h⟩
    · exact absurd h declare_ne_typeWithoutName
    · rcases bind_eq_error.1 h with h | ⟨_, -, h⟩
      · exact ⟨⟨d, hd⟩, seen', hdeclare, h⟩
      · cases h
  · intro h
    obtain ⟨⟨d, hd⟩, seen', hdeclare, h⟩ := h
    refine ⟨d, hd, ?_⟩
    rw [hnames d hd]
    exact bind_eq_error.2 (.inr ⟨seen', hdeclare, bind_eq_error.2 (.inl h)⟩)

/-- A type without a name is found where all types in front of it are converted. -/
theorem toDefs_eq_typeWithoutName {module s : String} {seen : List String} {ts : List TypeImage} :
    toDefs module seen ts = .error (.typeWithoutName s) ↔ ∃ before t after, ts = before ++ t :: after ∧
      Succeeds (toDefs module seen before) ∧ t.toTopDef module = .error (.typeWithoutName s) := by
  induction ts generalizing seen with
  | nil => simp [toDefs]
  | cons t ts ih =>
    rw [toDefs_cons_eq_typeWithoutName]
    constructor
    · intro h
      rcases h with h | ⟨ht, seen', hdeclare, h⟩
      · exact ⟨[], t, ts, rfl, succeeds_ok [], h⟩
      · obtain ⟨before, u, after, rfl, hbefore, hu⟩ := ih.1 h
        exact ⟨t :: before, u, after, rfl, succeeds_toDefs_cons.2 ⟨ht, seen', hdeclare, hbefore⟩, hu⟩
    · intro h
      obtain ⟨before, u, after, hsplit, hbefore, hu⟩ := h
      cases before with
      | nil =>
        cases hsplit
        exact .inl hu
      | cons b before =>
        cases hsplit
        obtain ⟨ht, seen', hdeclare, hbefore⟩ := succeeds_toDefs_cons.1 hbefore
        exact .inr ⟨ht, seen', hdeclare, ih.2 ⟨before, u, after, rfl, hbefore, hu⟩⟩

theorem toModule_eq_typeWithoutName {m : ModuleImage} {s : String} : m.toModule = .error (.typeWithoutName s) ↔
    Text.isBlank m.name = false ∧ toDefs m.name [] m.types = .error (.typeWithoutName s) := by
  unfold toModule
  cases Text.isBlank m.name with
  | true =>
    constructor
    · intro h
      cases h
    · intro h
      cases h.1
  | false =>
    simp only [Bool.false_eq_true, if_false, bind_eq_error, true_and]
    constructor
    · intro h
      rcases h with h | ⟨_, -, h⟩
      · exact h
      · cases h
    · intro h
      exact .inl h

/-- **A type without a name is found exactly if it is not nested** and the image made of the types in front of it is
converted. -/
theorem typeWithoutName_iff (m : ModuleImage) (s : String) : m.toModule = .error (.typeWithoutName s) ↔ s = m.name ∧
    ∃ before t after, m.types = before ++ t :: after ∧ Succeeds { m with types := before }.toModule ∧
      Text.isBlank (splitFullName t.name).2 = true := by
  have hfront : ∀ before, Succeeds { m with types := before }.toModule ↔
      Text.isBlank m.name = false ∧ Succeeds (toDefs m.name [] before) := fun before =>
    (succeeds_toModule _).trans (wellFormed_iff { m with types := before })
  simp only [toModule_eq_typeWithoutName, toDefs_eq_typeWithoutName, TypeImage.toTopDef_eq_typeWithoutName, hfront]
  constructor
  · intro h
    obtain ⟨hname, before, t, after, hsplit, hbefore, hblank, hs⟩ := h
    exact ⟨hs, before, t, after, hsplit, ⟨hname, hbefore⟩, hblank⟩
  · intro h
    obtain ⟨hs, before, t, after, hsplit, ⟨hname, hbefore⟩, hblank⟩ := h
    exact ⟨hname, before, t, after, hsplit, hbefore, hblank, hs⟩

/-- **Blank names are found in types that are not nested, and only there.**
- An image in which the name of a type that is not nested is blank is malformed.
- The fault that a type has no name is that of the first type that is not nested and has a blank name behind its
namespace, where the types in front of it are converted.
- Nested types may be called anything: where an image is converted, so is every one that differs from it in their
names, blank or not, as long as no two full names are the same. -/
theorem blank_names_found (m : ModuleImage) :
    ((∃ t ∈ m.types, Text.isBlank t.name = true) → ∃ cause, m.toModule = .error cause) ∧
      (∀ s, m.toModule = .error (.typeWithoutName s) ↔ s = m.name ∧ ∃ before t after, m.types = before ++ t :: after ∧
        (∃ module, { m with types := before }.toModule = .ok module) ∧ Text.isBlank (splitFullName t.name).2 = true) ∧
      ∀ f : String → String, (∃ module, m.toModule = .ok module) →
        ((∃ module, (m.renameNested f).toModule = .ok module) ↔
          ((m.renameNested f).types.flatMap TypeImage.topFullNames).Nodup) := by
  refine ⟨?_, typeWithoutName_iff m, fun f h => succeeds_renameNested h f⟩
  intro h
  obtain ⟨t, ht, hblank⟩ := h
  rcases succeeds_or_fails m.toModule with hsucceeds | hfails
  · have hname := ((succeeds_toModule m).1 hsucceeds).typeNames t ht
    rw [isBlank_of_name hname] at hblank
    cases hblank
  · exact hfails

/-- A lock in a drawer of a desk. -/
def locked : ModuleImage :=
  { name := "Lib"
    types := [{ name := "Lib.Desk", nested := [{ name := "Drawer", nested := [{ name := "Lock" }] }] }] }

theorem blank_names_found_locked : (∃ module, locked.toModule = .ok module) ∧
    (∃ module, (locked.renameNested fun _ => " ").toModule = .ok module) ∧
    ∃ cause, { locked with types := { name := "\t" } :: locked.types }.toModule = .error cause := by
  have hconverts : ∃ module, locked.toModule = .ok module := by
    have hcount : locked.toModule.toOption.map Module.typeCount = some 3 := by decide +kernel
    obtain ⟨module, hmodule, -⟩ := exists_ok_of_map hcount
    exact ⟨module, hmodule⟩
  refine ⟨hconverts, ((blank_names_found locked).2.2 _ hconverts).2 (by decide +kernel), ?_⟩
  exact (blank_names_found _).1 ⟨{ name := "\t" }, List.mem_cons_self, by decide⟩

/-- What is nested in the drawer of the desk has no name. -/
def unnamed : ModuleImage :=
  { name := "Lib"
    types := [{ name := "Lib.Desk", nested := [{ name := "Drawer", nested := [{ name := "" }] }] }] }

theorem blank_nested_name_converts : (∃ t ∈ unnamed.types.flatMap TypeImage.withNested, Text.isBlank t.name = true) ∧
    ¬ ∃ cause, unnamed.toModule = .error cause := by
  have hcount : unnamed.toModule.toOption.map Module.typeCount = some 3 := by decide +kernel
  obtain ⟨module, hmodule, -⟩ := exists_ok_of_map hcount
  refine ⟨by decide +kernel, ?_⟩
  rw [hmodule]
  intro h
  obtain ⟨cause, hcause⟩ := h
  cases hcause

end ModuleImage

end Coupling
