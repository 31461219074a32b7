/-
Which images are modules.

`ModuleImage.WellFormed` says of an image, without converting it, that its names
are not blank, that every reference in it is well formed all the way down, that
instructions end within 32 bits, and that no full name is declared twice. The
places where references stand are listed by `references`, part by part. An image
is converted to a module exactly if it is well formed (`toModule_succeeds_iff`);
each part of the conversion has a lemma that says when it succeeds, and no other
lemma looks into it.
-/
import Coupling.Image.Conversion
import Coupling.Proofs.Nesting
import Coupling.Proofs.Offsets
import Coupling.Proofs.Outcome
import Mathlib.Data.List.Nodup

namespace Coupling

/-! ## References -/

namespace TypeRefImage

mutual

/-- Names of types are not blank, instances have arguments and arrays have dimensions, all the way down. -/
def WellFormed : TypeRefImage → Prop
  | .own name => Text.isBlank name = false
  | .plain name _ => Text.isBlank name = false
  | .genericParameter _ _ constraints => AllWellFormed constraints
  | .genericInstance element arguments => arguments ≠ [] ∧ element.WellFormed ∧ AllWellFormed arguments
  | .array element rank => 1 ≤ rank ∧ element.WellFormed
  | .byReference element => element.WellFormed
  | .pointer element => element.WellFormed
  | .functionPointer => True

def AllWellFormed : List TypeRefImage → Prop
  | [] => True
  | r :: rs => r.WellFormed ∧ AllWellFormed rs

end

theorem allWellFormed_iff {rs : List TypeRefImage} : AllWellFormed rs ↔ ∀ r ∈ rs, r.WellFormed := by
  induction rs with
  | nil => simp [AllWellFormed]
  | cons r rs ih => simp [AllWellFormed, ih]

theorem succeeds_named (name scope : String) : Succeeds (named name scope) ↔ Text.isBlank name = false := by
  cases h : Text.isBlank name <;> simp [named, h]

mutual

/-- **A reference is converted exactly if it is well formed.** -/
theorem succeeds_toRef (scope : String) : ∀ r : TypeRefImage, Succeeds (r.toRef scope) ↔ r.WellFormed
  | .own name => succeeds_named name scope
  | .plain name other => succeeds_named name (other.getD scope)
  | .genericParameter name owner constraints => by
    rw [toRef, succeeds_bind_pure, succeeds_toRefs scope constraints, WellFormed]
  | .genericInstance element arguments => by
    rw [toRef, WellFormed]
    cases arguments with
    | nil => simp [not_succeeds_throw]
    | cons a arguments =>
      have helement := succeeds_toRef scope element
      have harguments := succeeds_toRefs scope (a :: arguments)
      simp only [List.isEmpty_cons, Bool.false_eq_true, if_false]
      rw [succeeds_bind_of fun _ => succeeds_bind_pure, helement, harguments]
      simp
  | .array element rank => by
    have helement := succeeds_toRef scope element
    rw [toRef, WellFormed]
    by_cases hrank : rank = 0
    · simp [hrank, not_succeeds_throw]
    · have hpos : 1 ≤ rank := by omega
      simp only [hrank, if_false, succeeds_bind_pure, helement, hpos, true_and]
  | .byReference element => by rw [toRef, succeeds_bind_pure, succeeds_toRef scope element, WellFormed]
  | .pointer element => by rw [toRef, succeeds_bind_pure, succeeds_toRef scope element, WellFormed]
  | .functionPointer => by simp [toRef, WellFormed]

theorem succeeds_toRefs (scope : String) : ∀ rs : List TypeRefImage, Succeeds (toRefs scope rs) ↔ AllWellFormed rs
  | [] => by simp [toRefs, AllWellFormed]
  | r :: rs => by
    rw [toRefs, succeeds_bind_of fun _ => succeeds_bind_pure, succeeds_toRef scope r, succeeds_toRefs scope rs,
      AllWellFormed]

end

theorem succeeds_toRefs_iff {scope : String} {rs : List TypeRefImage} :
    Succeeds (toRefs scope rs) ↔ ∀ r ∈ rs, r.WellFormed := by
  rw [succeeds_toRefs, allWellFormed_iff]

theorem succeeds_mapM_toRef {scope : String} {r : Option TypeRefImage} :
    Succeeds (r.mapM (·.toRef scope)) ↔ ∀ x ∈ r.toList, x.WellFormed := by
  cases r with
  | none => simp
  | some r =>
    show Succeeds (r.toRef scope >>= fun x => pure (some x)) ↔ _
    simp [succeeds_toRef]

end TypeRefImage

open TypeRefImage (succeeds_toRef succeeds_toRefs_iff succeeds_mapM_toRef)

theorem GenericParamImage.succeeds_toRefs {scope owner : String} {ps : List GenericParamImage} :
    Succeeds (ps.mapM (·.toRef scope owner)) ↔ ∀ r ∈ ps.flatMap (·.constraints), r.WellFormed := by
  simp only [succeeds_mapM, GenericParamImage.toRef, succeeds_bind_pure, succeeds_toRefs_iff,
    List.forall_mem_flatMap]

/-! ## Instructions -/

namespace OperandImage

/-- The references in an operand. -/
def references : OperandImage → List TypeRefImage
  | .type r => [r]
  | .method declaring _ returns params => declaring :: returns.toList ++ params
  | .field declaring _ fieldType => [declaring, fieldType]
  | .localVar _ | .argument _ | .target _ | .switch _ | .int _ | .float _ | .string _ => []

/-- Octets an operand takes. -/
def octets : OperandImage → Nat
  | .localVar _ | .argument _ => 2
  | .int _ | .float _ => 8
  | .switch targets => 4 * targets.length + 4
  | .type _ | .method .. | .field .. | .target _ | .string _ => 4

theorem succeeds_toOperand (scope : String) (o : OperandImage) :
    Succeeds (o.toOperand scope) ↔ ∀ r ∈ o.references, r.WellFormed := by
  cases o with
  | type r => simp [toOperand, references, succeeds_toRef]
  | method declaring name returns params =>
    have hrest : ∀ returns : TypeRef, Succeeds (do
        return Operand.method ⟨← declaring.toRef scope, name, returns, ← TypeRefImage.toRefs scope params⟩) ↔
          declaring.WellFormed ∧ ∀ r ∈ params, r.WellFormed := by
      intro returns
      rw [succeeds_bind_of fun _ => succeeds_bind_pure, succeeds_toRef, succeeds_toRefs_iff]
    cases returns with
    | none => simpa [toOperand, references] using hrest TypeRef.void
    | some r =>
      simp only [toOperand, references, succeeds_bind_of hrest, succeeds_toRef, Option.toList_some, List.mem_cons,
        List.cons_append, List.nil_append, forall_eq_or_imp]
      exact and_left_comm
  | field declaring name fieldType =>
    rw [toOperand, succeeds_bind_of fun _ => succeeds_bind_pure, succeeds_toRef, succeeds_toRef]
    simp [references]
  | localVar | argument | target | switch | int | float | string => simp [toOperand, references]

/-- An operand takes as many octets as its image says. -/
theorem octets_of_toOperand {scope : String} {o : OperandImage} {p : Operand} (h : o.toOperand scope = .ok p) :
    p.octets = o.octets := by
  cases o with
  | method declaring name returns params =>
    cases returns with
    | none =>
      simp only [toOperand, bind_eq_ok] at h
      obtain ⟨_, -, _, -, _, -, h⟩ := h
      cases h
      rfl
    | some r =>
      simp only [toOperand, bind_eq_ok] at h
      obtain ⟨_, -, _, -, _, -, h⟩ := h
      cases h
      rfl
  | type r =>
    obtain ⟨_, -, h⟩ := bind_eq_ok.1 h
    cases h
    rfl
  | field declaring name fieldType =>
    simp only [toOperand, bind_eq_ok] at h
    obtain ⟨_, -, _, -, h⟩ := h
    cases h
    rfl
  | localVar | argument | target | switch | int | float | string =>
    cases h
    rfl

end OperandImage

namespace InstructionImage

/-- The references in an instruction. -/
def references (i : InstructionImage) : List TypeRefImage := i.operand.toList.flatMap OperandImage.references

/-- Octets the operand takes. -/
def operandOctets (i : InstructionImage) : Nat := (i.operand.map OperandImage.octets).getD 0

/-- Where instructions end, of which the first is at `next` unless it says otherwise: an instruction takes one
octet and its operand's, and the one after it is where it ends unless it says otherwise. -/
def ends (next : Nat) : List InstructionImage → List Nat
  | [] => []
  | i :: is =>
    let stop := i.offset.getD next + 1 + i.operandOctets
    stop :: ends stop is

theorem succeeds_toOperand (scope : String) (i : InstructionImage) :
    Succeeds (i.toOperand scope) ↔ ∀ r ∈ i.references, r.WellFormed := by
  unfold toOperand references
  cases i.operand with
  | none => simp
  | some o => simp [OperandImage.succeeds_toOperand]

theorem octets_of_toOperand {scope : String} {i : InstructionImage} {o : Operand} (h : i.toOperand scope = .ok o) :
    o.octets = i.operandOctets := by
  unfold toOperand at h
  unfold operandOctets
  cases hi : i.operand with
  | none =>
    rw [hi] at h
    cases h
    rfl
  | some image =>
    rw [hi] at h
    exact OperandImage.octets_of_toOperand h

/-- An instruction is decoded to its operand at its offset, if it ends in range, and then the next ones are. -/
theorem decodeFrom_cons {scope : String} {next : Nat} {i : InstructionImage} {is : List InstructionImage} :
    decodeFrom scope next (i :: is) = i.toOperand scope >>= fun o =>
      (o.nextOffset? (i.offset.getD next)).elim (.error (.offsetOverflow i.op)) fun stop =>
        (⟨i.offset.getD next, i.op, o⟩ :: ·) <$> decodeFrom scope stop is := by
  rw [decodeFrom]
  refine congrArg (_ >>= ·) (funext fun o => ?_)
  dsimp only
  cases o.nextOffset? (i.offset.getD next) with
  | none => rfl
  | some stop => exact (map_eq_pure_bind _ _).symm

/-- An instruction is decoded if its operand is and it ends in range; then the next ones are. -/
theorem succeeds_decodeFrom_cons {scope : String} {next : Nat} {i : InstructionImage} {is : List InstructionImage} :
    Succeeds (decodeFrom scope next (i :: is)) ↔ (∀ r ∈ i.references, r.WellFormed) ∧
      i.offset.getD next + 1 + i.operandOctets ≤ offsetMax ∧
      Succeeds (decodeFrom scope (i.offset.getD next + 1 + i.operandOctets) is) := by
  rw [decodeFrom_cons, ← succeeds_toOperand scope]
  refine succeeds_bind_of_ok fun o ho => ?_
  rw [o.nextOffset?_eq, octets_of_toOperand ho]
  by_cases hfits : i.offset.getD next + 1 + i.operandOctets ≤ offsetMax
  · simp [word?_of_le hfits, hfits]
  · simp [word?_of_lt (Nat.lt_of_not_le hfits), hfits]

theorem succeeds_decodeFrom (scope : String) {next : Nat} {is : List InstructionImage} :
    Succeeds (decodeFrom scope next is) ↔
      (∀ r ∈ is.flatMap references, r.WellFormed) ∧ ∀ e ∈ ends next is, e ≤ offsetMax := by
  induction is generalizing next with
  | nil => simp [decodeFrom, ends]
  | cons i is ih =>
    rw [succeeds_decodeFrom_cons, ih]
    simp only [ends, List.flatMap_cons, List.forall_mem_append, List.forall_mem_cons]
    rw [← and_assoc]
    exact and_and_and_comm

end InstructionImage

/-! ## Methods -/

namespace MethodImage

/-- The instructions that are decoded: the body of an abstract method is not looked at. -/
def code (m : MethodImage) : List InstructionImage := if m.isAbstract then [] else m.body.getD []

/-- The references in a method. -/
def references (m : MethodImage) : List TypeRefImage :=
  m.returns.toList ++ m.params.map (·.type) ++ m.genericParams.flatMap (·.constraints) ++
    m.code.flatMap InstructionImage.references

structure WellFormed (m : MethodImage) : Prop where
  name : Text.isBlank m.name = false
  references : ∀ r ∈ m.references, r.WellFormed
  offsets : ∀ e ∈ InstructionImage.ends 0 m.code, e ≤ offsetMax

theorem succeeds_withCode (scope : String) (m : MethodImage) (draft : MethodDraft) :
    Succeeds (m.withCode scope draft) ↔ Succeeds (InstructionImage.decodeFrom scope 0 m.code) := by
  unfold withCode code
  cases m.isAbstract with
  | true => simp [InstructionImage.decodeFrom]
  | false =>
    cases m.body with
    | none => simp [InstructionImage.decodeFrom]
    | some is => simp [InstructionImage.decode]

theorem wellFormed_iff (m : MethodImage) : m.WellFormed ↔ Text.isBlank m.name = false ∧
    (∀ r ∈ m.returns.toList, r.WellFormed) ∧ (∀ p ∈ m.params, p.type.WellFormed) ∧
    (∀ r ∈ m.genericParams.flatMap (·.constraints), r.WellFormed) ∧
    (∀ r ∈ m.code.flatMap InstructionImage.references, r.WellFormed) ∧
    ∀ e ∈ InstructionImage.ends 0 m.code, e ≤ offsetMax := by
  constructor
  · intro h
    have hrefs := h.references
    simp only [references, List.forall_mem_append, List.forall_mem_map] at hrefs
    exact ⟨h.name, hrefs.1.1.1, hrefs.1.1.2, hrefs.1.2, hrefs.2, h.offsets⟩
  · intro h
    obtain ⟨hname, hreturns, hparams, hgeneric, hcode, hoffsets⟩ := h
    refine ⟨hname, ?_, hoffsets⟩
    simp only [references, List.forall_mem_append, List.forall_mem_map]
    exact ⟨⟨⟨hreturns, hparams⟩, hgeneric⟩, hcode⟩

/-- **A method is converted exactly if it is well formed.** -/
theorem succeeds_toDraft (scope declaring : String) (m : MethodImage) :
    Succeeds (m.toDraft scope declaring) ↔ m.WellFormed := by
  have hparams : Succeeds (m.params.mapM fun p => do return (⟨p.name, ← p.type.toRef scope⟩ : Param)) ↔
      ∀ p ∈ m.params, p.type.WellFormed := by
    simp [succeeds_mapM, succeeds_toRef]
  rw [wellFormed_iff, ← InstructionImage.succeeds_decodeFrom scope]
  unfold toDraft
  cases hblank : Text.isBlank m.name with
  | true => simp [not_succeeds_throw]
  | false =>
    cases hreturns : m.returns
    -- what follows the return type does not depend on it
    all_goals
      simp only [Bool.false_eq_true, if_false]
      refine (succeeds_bind_of fun _ => succeeds_bind_of fun _ => succeeds_bind_of fun _ =>
        succeeds_withCode scope m _).trans ?_
      rw [hparams, GenericParamImage.succeeds_toRefs]
      simp [succeeds_toRef]

theorem succeeds_toDrafts {scope declaring : String} {ms : List MethodImage} :
    Succeeds (ms.mapM (·.toDraft scope declaring)) ↔ ∀ m ∈ ms, m.WellFormed := by
  simp only [succeeds_mapM, succeeds_toDraft]

end MethodImage

/-! ## Types -/

namespace TypeImage

mutual

/-- The image and all images nested in it. -/
def withNested : TypeImage → List TypeImage
  | t@{ nested := ts, .. } => t :: withNestedAll ts

def withNestedAll : List TypeImage → List TypeImage
  | [] => []
  | t :: ts => t.withNested ++ withNestedAll ts

end

/-- The references in a type, those in types nested in it apart. -/
def references (t : TypeImage) : List TypeRefImage :=
  t.base.toList ++ t.interfaces ++ t.attributes ++ t.genericParams.flatMap (·.constraints) ++
    t.fields.map (·.type)

/-- What a type itself declares is well formed. -/
structure WellFormed (t : TypeImage) : Prop where
  references : ∀ r ∈ t.references, r.WellFormed
  methods : ∀ m ∈ t.methods, m.WellFormed

mutual

/-- The full names of a type and of those nested in it. A nested type's name follows that of the type around it. -/
def fullNames (ns name : String) : TypeImage → List String
  | { nested := ts, .. } => qualify ns name :: nestedFullNames ns name ts

def nestedFullNames (ns outer : String) : List TypeImage → List String
  | [] => []
  | t :: ts => t.fullNames ns (outer ++ "/" ++ t.name) ++ nestedFullNames ns outer ts

end

theorem isBlank_nestedName (outer inner : String) : Text.isBlank (TypeDef.nestedName outer inner) = false := by
  have hslash : Text.isWhiteSpace '/' = false := by decide
  simp [Text.isBlank, TypeDef.nestedName, hslash]

theorem wellFormed_iff (t : TypeImage) : t.WellFormed ↔ (∀ r ∈ t.base.toList, r.WellFormed) ∧
    (∀ r ∈ t.interfaces, r.WellFormed) ∧ (∀ r ∈ t.attributes, r.WellFormed) ∧
    (∀ r ∈ t.genericParams.flatMap (·.constraints), r.WellFormed) ∧ (∀ f ∈ t.fields, f.type.WellFormed) ∧
    ∀ m ∈ t.methods, m.WellFormed := by
  constructor
  · intro h
    have hrefs := h.references
    simp only [references, List.forall_mem_append, List.forall_mem_map] at hrefs
    exact ⟨hrefs.1.1.1.1, hrefs.1.1.1.2, hrefs.1.1.2, hrefs.1.2, hrefs.2, h.methods⟩
  · intro h
    obtain ⟨hbase, hinterfaces, hattributes, hgeneric, hfields, hmethods⟩ := h
    refine ⟨?_, hmethods⟩
    simp only [references, List.forall_mem_append, List.forall_mem_map]
    exact ⟨⟨⟨⟨hbase, hinterfaces⟩, hattributes⟩, hgeneric⟩, hfields⟩

mutual

/-- **A type is converted exactly if its name is not blank and it and all types nested in it are well formed.** -/
theorem succeeds_toDef (scope ns name : String) : ∀ t : TypeImage,
    Succeeds (t.toDef scope ns name) ↔ Text.isBlank name = false ∧ ∀ u ∈ t.withNested, u.WellFormed
  | ⟨own, kind, isAbstract, isSealed, base, interfaces, genericParams, attributes, fields, methods, nested⟩ => by
    have hnested := succeeds_toNested scope ns name nested
    have hfields : Succeeds (fields.mapM fun f => do return (⟨f.name, ← f.type.toRef scope⟩ : Field)) ↔
        ∀ f ∈ fields, f.type.WellFormed := by
      simp [succeeds_mapM, succeeds_toRef]
    rw [toDef, withNested, List.forall_mem_cons, wellFormed_iff]
    cases Text.isBlank name with
    | true => simp [not_succeeds_throw]
    | false =>
      simp only [Bool.false_eq_true, if_false, true_and, and_assoc]
      rw [succeeds_bind_of fun _ => succeeds_bind_of fun _ => succeeds_bind_of fun _ => succeeds_bind_of fun _ =>
        succeeds_bind_of fun _ => succeeds_bind_of fun _ => succeeds_bind_pure]
      simp only [succeeds_mapM_toRef, succeeds_toRefs_iff, GenericParamImage.succeeds_toRefs, hfields,
        MethodImage.succeeds_toDrafts, hnested]

theorem succeeds_toNested (scope ns outer : String) : ∀ ts : List TypeImage,
    Succeeds (toNested scope ns outer ts) ↔ ∀ u ∈ withNestedAll ts, u.WellFormed
  | [] => by simp [toNested, withNestedAll]
  | t :: ts => by
    rw [toNested, succeeds_bind_of fun _ => succeeds_bind_pure, succeeds_toDef scope ns _ t,
      succeeds_toNested scope ns outer ts, withNestedAll, List.forall_mem_append, isBlank_nestedName]
    simp

end

/-- What is known of a definition without looking at its members. -/
theorem toDef_eq_ok {scope ns name : String} {t : TypeImage} {d : TypeDef} (h : t.toDef scope ns name = .ok d) :
    toNested scope ns name t.nested = .ok d.nested ∧ d.reference = .plain ns name scope := by
  obtain ⟨own, kind, isAbstract, isSealed, base, interfaces, genericParams, attributes, fields, methods, nested⟩ := t
  rw [toDef] at h
  split at h
  · exact absurd ⟨d, h⟩ (not_succeeds_throw _ _)
  · simp only [bind_eq_ok] at h
    obtain ⟨_, -, _, -, _, -, _, -, _, -, _, -, ds, hnested, h⟩ := h
    cases h
    exact ⟨hnested, by cases kind <;> cases isAbstract <;> cases isSealed <;> rfl⟩

mutual

/-- **The definitions of a type and of those nested in it have the full names of their images.** -/
theorem fullNames_of_toDef {scope ns : String} : ∀ (t : TypeImage) {name : String} {d : TypeDef},
    t.toDef scope ns name = .ok d → d.withNested.map TypeDef.fullName = t.fullNames ns name
  | ⟨own, kind, isAbstract, isSealed, base, interfaces, genericParams, attributes, fields, methods, nested⟩, name, d,
    h => by
    obtain ⟨hnested, hreference⟩ := toDef_eq_ok h
    rw [TypeDef.withNested_eq, fullNames, List.map_cons, fullNames_of_toNested nested hnested, TypeDef.fullName, hreference,
      TypeRef.fullName]

theorem fullNames_of_toNested {scope ns : String} : ∀ (ts : List TypeImage) {outer : String} {ds : List TypeDef},
    toNested scope ns outer ts = .ok ds →
      (TypeDef.withNestedAll ds).map TypeDef.fullName = nestedFullNames ns outer ts
  | [], _, _, h => by
    cases h
    rfl
  | t :: ts, outer, _, h => by
    simp only [toNested, bind_eq_ok] at h
    obtain ⟨d, hd, ds, hds, h⟩ := h
    cases h
    rw [TypeDef.withNestedAll, List.map_append, fullNames_of_toDef t hd, fullNames_of_toNested ts hds, nestedFullNames]
    rfl

end

/-- The full names of a type that is not nested and of those nested in it. -/
def topFullNames (t : TypeImage) : List String := t.fullNames (splitFullName t.name).1 (splitFullName t.name).2

end TypeImage

/-! ## Modules -/

namespace ModuleImage

/-- The names are not blank, every type is well formed in itself, and no two types have one full name. Types
that are nested need no name of their own, since the name of the type around them is part of theirs. -/
structure WellFormed (m : ModuleImage) : Prop where
  name : Text.isBlank m.name = false
  typeNames : ∀ t ∈ m.types, Text.isBlank (splitFullName t.name).2 = false
  types : ∀ t ∈ m.types.flatMap TypeImage.withNested, t.WellFormed
  distinct : (m.types.flatMap TypeImage.topFullNames).Nodup

/-- Names are declared exactly if they are new and none comes twice. -/
theorem succeeds_declare (module : String) {seen names : List String} :
    Succeeds (declare module seen names) ↔ names.Nodup ∧ ∀ n ∈ names, n ∉ seen := by
  induction names generalizing seen with
  | nil => simp [declare]
  | cons n names ih =>
    rw [declare]
    by_cases hseen : n ∈ seen
    · simp [hseen]
    · have hnew : (∀ x ∈ names, x ∉ n :: seen) ↔ n ∉ names ∧ ∀ x ∈ names, x ∉ seen := by
        simp only [List.mem_cons, not_or, forall₂_and, List.forall_mem_ne']
      simp only [List.contains_eq_mem, hseen, decide_false, Bool.false_eq_true, if_false, ih, hnew, List.nodup_cons,
        List.forall_mem_cons, not_false_eq_true, true_and]
      exact and_left_comm.trans and_assoc.symm

theorem mem_of_declare {module : String} {seen names seen' : List String}
    (h : declare module seen names = .ok seen') (n : String) : n ∈ seen' ↔ n ∈ names ∨ n ∈ seen := by
  induction names generalizing seen with
  | nil =>
    cases h
    simp
  | cons x names ih =>
    rw [declare] at h
    split at h
    · simp at h
    · rw [ih h, List.mem_cons, List.mem_cons]
      exact or_left_comm.trans or_assoc.symm

/-- The names declared are those of the image, and the types that follow are converted against them. -/
theorem succeeds_toDefs_cons {module : String} {seen : List String} {t : TypeImage} {ts : List TypeImage} :
    Succeeds (toDefs module seen (t :: ts)) ↔ Succeeds (t.toTopDef module) ∧
      ∃ seen', declare module seen t.topFullNames = .ok seen' ∧ Succeeds (toDefs module seen' ts) := by
  simp only [toDefs, succeeds_bind (x := t.toTopDef module)]
  have hnames : ∀ d, t.toTopDef module = .ok d → d.withNested.map TypeDef.fullName = t.topFullNames := fun d hd =>
    TypeImage.fullNames_of_toDef t hd
  constructor
  · intro h
    obtain ⟨d, hd, h⟩ := h
    rw [hnames d hd, succeeds_bind] at h
    obtain ⟨seen', hdeclare, h⟩ := h
    exact ⟨⟨d, hd⟩, seen', hdeclare, succeeds_bind_pure.1 h⟩
  · intro h
    obtain ⟨⟨d, hd⟩, seen', hdeclare, h⟩ := h
    refine ⟨d, hd, ?_⟩
    rw [hnames d hd, succeeds_bind]
    exact ⟨seen', hdeclare, succeeds_bind_pure.2 h⟩

/-- **Types are converted one after the other exactly if each of them is and their full names are new.** -/
theorem succeeds_toDefs {module : String} {seen : List String} {ts : List TypeImage} :
    Succeeds (toDefs module seen ts) ↔ (∀ t ∈ ts, Succeeds (t.toTopDef module)) ∧
      (ts.flatMap TypeImage.topFullNames).Nodup ∧ ∀ n ∈ ts.flatMap TypeImage.topFullNames, n ∉ seen := by
  induction ts generalizing seen with
  | nil => simp [toDefs]
  | cons t ts ih =>
    rw [succeeds_toDefs_cons, List.flatMap_cons, List.nodup_append, List.forall_mem_append, List.forall_mem_cons]
    constructor
    · intro h
      obtain ⟨ht, seen', hdeclare, h⟩ := h
      obtain ⟨hts, hnodup, hnew⟩ := ih.1 h
      obtain ⟨hown, hfresh⟩ := (succeeds_declare module).1 ⟨seen', hdeclare⟩
      simp only [mem_of_declare hdeclare, not_or] at hnew
      exact ⟨⟨ht, hts⟩, ⟨hown, hnodup, fun n hn n' hn' heq => (hnew n' hn').1 (heq ▸ hn)⟩, hfresh,
        fun n hn => (hnew n hn).2⟩
    · intro h
      obtain ⟨⟨ht, hts⟩, ⟨hown, hnodup, happart⟩, hfresh, hnew⟩ := h
      obtain ⟨seen', hdeclare⟩ := (succeeds_declare module).2 ⟨hown, hfresh⟩
      refine ⟨ht, seen', hdeclare, ih.2 ⟨hts, hnodup, fun n hn hseen => ?_⟩⟩
      rcases (mem_of_declare hdeclare n).1 hseen with hown' | hseen
      · exact happart n hown' n hn rfl
      · exact hnew n hn hseen

theorem succeeds_toTopDefs {module : String} {ts : List TypeImage} :
    (∀ t ∈ ts, Succeeds (t.toTopDef module)) ↔ (∀ t ∈ ts, Text.isBlank (splitFullName t.name).2 = false) ∧
      ∀ u ∈ ts.flatMap TypeImage.withNested, u.WellFormed := by
  have heach : ∀ t : TypeImage, Succeeds (t.toTopDef module) ↔
      Text.isBlank (splitFullName t.name).2 = false ∧ ∀ u ∈ t.withNested, u.WellFormed := fun t =>
    TypeImage.succeeds_toDef module _ _ t
  simp only [heach, List.forall_mem_flatMap]
  exact forall₂_and

theorem wellFormed_iff (m : ModuleImage) :
    m.WellFormed ↔ Text.isBlank m.name = false ∧ Succeeds (toDefs m.name [] m.types) := by
  rw [succeeds_toDefs, succeeds_toTopDefs]
  constructor
  · intro h
    exact ⟨h.name, ⟨h.typeNames, h.types⟩, h.distinct, by simp⟩
  · intro h
    exact ⟨h.1, h.2.1.1, h.2.1.2, h.2.2.1⟩

theorem succeeds_toModule (m : ModuleImage) : Succeeds m.toModule ↔ m.WellFormed := by
  rw [wellFormed_iff, toModule]
  cases Text.isBlank m.name with
  | true => simp [not_succeeds_throw]
  | false => simp

/-- **An image is converted to a module exactly if it is well formed**, and otherwise it is malformed. -/
theorem toModule_succeeds_iff (m : ModuleImage) :
    ((∃ module, m.toModule = .ok module) ↔ m.WellFormed) ∧
      ((∃ cause, m.toModule = .error cause) ↔ ¬ m.WellFormed) := by
  have hsucceeds := succeeds_toModule m
  refine ⟨hsucceeds, ?_⟩
  rw [← hsucceeds]
  rcases succeeds_or_fails m.toModule with ⟨module, h⟩ | ⟨cause, h⟩
  · simp [h]
  · simp [h]

end ModuleImage

end Coupling
