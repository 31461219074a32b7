/-
The bodies of an image.

`Decodes` says what decoding gives, instruction by instruction: the operand meant,
at the offset given or else where the instruction in front ends, if it ends within
32 bits itself (`decodeFrom_eq_ok`). Where no offset is given, this is what placing
operations gives (`decodeFrom_eq_place`), except that an end which placing would cut
off is an error (`decodeFrom_overflows`).

An offset that is given is taken as it is. Only such an offset can lead back, so the
instructions of a body stand in the order of their offsets exactly if none of them
does (`pairwise_lt_starts_iff`). The bodies of a module are those of its image, one
by one, decoded (`bodies_of_toModule`).
-/
import Coupling.Proofs.Image.Naming
import Mathlib.Data.List.Chain

namespace Coupling

/-- Where an instruction ends. -/
def Instruction.stop (x : Instruction) : Nat := x.offset + 1 + x.operand.octets

/-! ## Decoding -/

namespace InstructionImage

/-- Operations are what instructions mean, apart from where these stand. -/
def Means (scope : String) (is : List InstructionImage) (ops : List (String × Operand)) : Prop :=
  List.Forall₂ (fun i op => i.op = op.1 ∧ i.toOperand scope = .ok op.2) is ops

section

variable {scope : String} {next : Nat} {i : InstructionImage} {is : List InstructionImage} {o : Operand}

theorem decodeFrom_cons_of_le (h : i.toOperand scope = .ok o) (hle : i.offset.getD next + 1 + o.octets ≤ offsetMax) :
    decodeFrom scope next (i :: is) =
      (⟨i.offset.getD next, i.op, o⟩ :: ·) <$> decodeFrom scope (i.offset.getD next + 1 + o.octets) is := by
  rw [decodeFrom_cons, h]
  show (o.nextOffset? _).elim _ _ = _
  rw [o.nextOffset?_eq, word?_of_le hle]
  rfl

theorem decodeFrom_cons_of_lt (h : i.toOperand scope = .ok o) (hlt : offsetMax < i.offset.getD next + 1 + o.octets) :
    decodeFrom scope next (i :: is) = .error (.offsetOverflow i.op) := by
  rw [decodeFrom_cons, h]
  show (o.nextOffset? _).elim _ _ = _
  rw [o.nextOffset?_eq, word?_of_lt hlt]
  rfl

/-- What instructions are decoded to, of which the first is at `next` unless it says otherwise. -/
inductive Decodes (scope : String) : Nat → List InstructionImage → List Instruction → Prop
  | nil (next : Nat) : Decodes scope next [] []
  | cons {next : Nat} {i : InstructionImage} {is : List InstructionImage} {o : Operand} {xs : List Instruction} :
      i.toOperand scope = .ok o → i.offset.getD next + 1 + o.octets ≤ offsetMax →
      Decodes scope (i.offset.getD next + 1 + o.octets) is xs →
      Decodes scope next (i :: is) (⟨i.offset.getD next, i.op, o⟩ :: xs)

theorem decodeFrom_eq_ok {xs : List Instruction} : decodeFrom scope next is = .ok xs ↔ Decodes scope next is xs := by
  constructor
  · intro h
    induction is generalizing next xs with
    | nil =>
      cases h
      exact .nil next
    | cons i is ih =>
      rw [decodeFrom_cons, bind_eq_ok] at h
      obtain ⟨o, ho, h⟩ := h
      by_cases hle : i.offset.getD next + 1 + o.octets ≤ offsetMax
      · rw [o.nextOffset?_eq, word?_of_le hle, Option.elim_some, map_eq_pure_bind, bind_eq_ok] at h
        obtain ⟨xs, hxs, h⟩ := h
        cases h
        exact .cons ho hle (ih hxs)
      · rw [o.nextOffset?_eq, word?_of_lt (by omega)] at h
        cases h
  · intro h
    induction h with
    | nil => rfl
    | cons ho hle _ ih =>
      rw [decodeFrom_cons_of_le ho hle, ih]
      rfl

/-! ## Decoding and placing -/

/-- Of operations that stand one after the other, the first at `next`, `op` is the first that ends out of range. -/
def OverflowsAt (next : Nat) (ops : List (String × Operand)) (op : String × Operand) : Prop :=
  ∃ before after, ops = before ++ op :: after ∧ next + Body.extent before ≤ offsetMax ∧
    offsetMax < next + Body.extent (before ++ [op])

variable {ops : List (String × Operand)}

/-- **Instructions that do not say where they stand are placed one after the other**, as long as they end in range. -/
theorem decodeFrom_eq_place (hops : Means scope is ops) (hderived : ∀ i ∈ is, i.offset = none)
    (hle : next + Body.extent ops ≤ offsetMax) : decodeFrom scope next is = .ok (Body.place next ops) := by
  induction hops generalizing next with
  | nil => rfl
  | @cons i op is ops hi _ ih =>
    rw [Body.extent_cons] at hle
    have hoffset : i.offset.getD next = next := by rw [hderived i List.mem_cons_self, Option.getD_none]
    have hstop : next + 1 + op.2.octets ≤ offsetMax := by omega
    rw [decodeFrom_cons_of_le hi.2 (by rwa [hoffset]), hoffset,
      ih (fun j hj => hderived j (List.mem_cons_of_mem _ hj)) (by omega), Body.place, Operand.nextOffset?_eq,
      word?_of_le hstop, hi.1]
    rfl

/-- **If they do not, the first that ends out of range is an error.** -/
theorem decodeFrom_overflows (hops : Means scope is ops) (hderived : ∀ i ∈ is, i.offset = none)
    (hnext : next ≤ offsetMax) (hlt : offsetMax < next + Body.extent ops) :
    ∃ op, OverflowsAt next ops op ∧ decodeFrom scope next is = .error (.offsetOverflow op.1) := by
  induction hops generalizing next with
  | nil =>
    rw [Body.extent_nil] at hlt
    omega
  | @cons i op is ops hi _ ih =>
    rw [Body.extent_cons] at hlt
    have hoffset : i.offset.getD next = next := by rw [hderived i List.mem_cons_self, Option.getD_none]
    by_cases hstop : next + 1 + op.2.octets ≤ offsetMax
    -- the first one fits, so the fault is among the others
    · obtain ⟨op', ⟨before, after, rfl, hbefore, hafter⟩, herror⟩ :=
        ih (fun j hj => hderived j (List.mem_cons_of_mem _ hj)) hstop (by omega)
      refine ⟨op', ⟨op :: before, after, rfl, ?_, ?_⟩, ?_⟩
      · rw [Body.extent_cons]
        omega
      · rw [List.cons_append, Body.extent_cons]
        omega
      · rw [decodeFrom_cons_of_le hi.2 (by rwa [hoffset]), hoffset, herror]
        rfl
    · refine ⟨op, ⟨[], ops, rfl, hnext, ?_⟩, ?_⟩
      · rw [List.nil_append, Body.extent_cons, Body.extent_nil]
        omega
      · rw [decodeFrom_cons_of_lt hi.2 (by rw [hoffset]; omega), hi.1]

namespace Decodes

variable {xs : List Instruction}

theorem means (h : Decodes scope next is xs) : Means scope is (xs.map fun x => (x.mnemonic, x.operand)) := by
  induction h with
  | nil => exact .nil
  | cons ho _ _ ih => exact .cons ⟨rfl, ho⟩ ih

/-- An instruction stands where it says, or else where the one in front of it ends. -/
theorem offsets_eq_zipWith (h : Decodes scope next is xs) :
    xs.map Instruction.offset = List.zipWith (fun i stop => i.offset.getD stop) is (next :: xs.map Instruction.stop) := by
  induction h with
  | nil => rfl
  | cons _ _ _ ih =>
    rw [List.map_cons, List.map_cons, List.zipWith_cons_cons, ih]
    rfl

theorem stop_le (h : Decodes scope next is xs) : ∀ x ∈ xs, x.stop ≤ offsetMax := by
  induction h with
  | nil => simp
  | cons _ hle _ ih =>
    rw [List.forall_mem_cons]
    exact ⟨hle, ih⟩

end Decodes

theorem decode_eq_ok {b : Body} : decode scope is = .ok b ↔ Decodes scope 0 is b.instructions := by
  rw [← decodeFrom_eq_ok, decode, bind_eq_ok]
  constructor
  · intro h
    obtain ⟨xs, hxs, h⟩ := h
    cases h
    exact hxs
  · intro h
    exact ⟨b.instructions, h, rfl⟩

theorem size?_of_stop_le {x : Instruction} (h : x.stop ≤ offsetMax) : x.operand.size? = some x.operand.octets := by
  unfold Instruction.stop at h
  rw [Operand.size?_eq, word?_of_le (by omega)]

end

/-- **Bodies that are decoded and bodies that are built agree.**
- Instructions that do not say where they stand and have operands are decoded exactly if they and their operands
take no more octets than the largest offset counts, and then to the body that is built from their operations. If
they take more, the error names the first instruction that ends out of range.
- Whether they say so or not, what is decoded has their mnemonics and operands, in range and of a size each, and
every instruction stands where it says, or else where the one in front of it ends, and the first at 0. -/
theorem decode_agrees (scope : String) (is : List InstructionImage) :
    (∀ ops, (∀ i ∈ is, i.offset = none) → Means scope is ops →
      ((∃ b, decode scope is = .ok b) ↔ Body.extent ops ≤ offsetMax) ∧
      (Body.extent ops ≤ offsetMax → decode scope is = .ok (.ofOperations ops)) ∧
      (offsetMax < Body.extent ops →
        ∃ op, OverflowsAt 0 ops op ∧ decode scope is = .error (.offsetOverflow op.1))) ∧
      ∀ b, decode scope is = .ok b → Means scope is (b.instructions.map fun x => (x.mnemonic, x.operand)) ∧
        b.offsets = List.zipWith (fun i stop => i.offset.getD stop) is (0 :: b.instructions.map Instruction.stop) ∧
        ∀ x ∈ b.instructions, x.operand.size? = some x.operand.octets ∧ x.stop ≤ offsetMax := by
  constructor
  · intro ops hderived hops
    have hbuilt : Body.extent ops ≤ offsetMax → decode scope is = .ok (.ofOperations ops) := by
      intro hle
      rw [decode, decodeFrom_eq_place hops hderived (by omega)]
      rfl
    have herror : offsetMax < Body.extent ops →
        ∃ op, OverflowsAt 0 ops op ∧ decode scope is = .error (.offsetOverflow op.1) := by
      intro hlt
      obtain ⟨op, hop, herror⟩ := decodeFrom_overflows hops hderived (Nat.zero_le _) (by omega)
      refine ⟨op, hop, ?_⟩
      rw [decode, herror]
      rfl
    refine ⟨⟨fun hb => ?_, fun hle => ⟨_, hbuilt hle⟩⟩, hbuilt, herror⟩
    obtain ⟨b, hb⟩ := hb
    refine Nat.le_of_not_lt fun hlt => ?_
    obtain ⟨_, -, hfails⟩ := herror hlt
    rw [hb] at hfails
    cases hfails
  · intro b hb
    have hdecodes := decode_eq_ok.1 hb
    exact ⟨hdecodes.means, hdecodes.offsets_eq_zipWith, fun x hx =>
      ⟨size?_of_stop_le (hdecodes.stop_le x hx), hdecodes.stop_le x hx⟩⟩

/-- The images of `Body.branching`. -/
def branching (n : Nat) : List InstructionImage :=
  [{ op := "switch", operand := some (.switch (List.replicate n 0)) },
   { op := "ldc.i8", operand := some (.int 0) }, { op := "ret" }]

theorem means_branching (scope : String) (n : Nat) : Means scope (branching n) (Body.branching n) :=
  .cons ⟨rfl, rfl⟩ (.cons ⟨rfl, rfl⟩ (.cons ⟨rfl, rfl⟩ .nil))

theorem extent_branching (n : Nat) : Body.extent (Body.branching n) = 4 * n + 15 := by
  simp only [Body.branching, Body.extent_cons, Body.extent_nil, Operand.octets, List.length_replicate]
  omega

/-- Instructions of which the last says that it stands in front of the others. -/
def backwards : List InstructionImage :=
  [{ offset := some 7, op := "nop" }, { op := "ldc.i8", operand := some (.int 0) }, { offset := some 2, op := "ret" }]

theorem decode_agrees_branching :
    decode "Lib" (branching 1073741820) = .ok (.ofOperations (Body.branching 1073741820)) ∧
      (∃ op, decode "Lib" (branching 1073741821) = .error (.offsetOverflow op)) ∧
      ∃ b, decode "Lib" backwards = .ok b ∧ b.offsets = [7, 8, 2] := by
  have hderived : ∀ n, ∀ i ∈ branching n, i.offset = none := by simp [branching]
  have hfits := (decode_agrees "Lib" (branching 1073741820)).1 _ (hderived _) (means_branching _ _)
  have hlonger := (decode_agrees "Lib" (branching 1073741821)).1 _ (hderived _) (means_branching _ _)
  rw [extent_branching] at hfits hlonger
  refine ⟨hfits.2.1 (by decide), ?_, ?_⟩
  · obtain ⟨op, -, herror⟩ := hlonger.2.2 (by decide)
    exact ⟨op.1, herror⟩
  · exact ⟨_, rfl, ((decode_agrees "Lib" backwards).2 _ rfl).2.1⟩

/-! ## Order -/

/-- Where instructions stand, of which the first is at `next` unless it says otherwise. -/
def starts (next : Nat) : List InstructionImage → List Nat
  | [] => []
  | i :: is => i.offset.getD next :: starts (i.offset.getD next + 1 + i.operandOctets) is

/-- No instruction says that it stands where the one in front of it does, or before. -/
def Forward (next : Nat) (is : List InstructionImage) : Prop :=
  ∀ p ∈ (starts next is).zip is.tail, ∀ o ∈ p.2.offset, p.1 < o

instance (next : Nat) (is : List InstructionImage) : Decidable (Forward next is) :=
  inferInstanceAs (Decidable (∀ p ∈ (starts next is).zip is.tail, ∀ o ∈ p.2.offset, p.1 < o))

section

variable {scope : String} {next : Nat} {is : List InstructionImage}

theorem Decodes.offsets_eq_starts {xs : List Instruction} (h : Decodes scope next is xs) :
    xs.map Instruction.offset = starts next is := by
  induction h with
  | nil => rfl
  | cons ho _ _ ih => rw [List.map_cons, ih, starts, octets_of_toOperand ho]

theorem forward_cons_cons {i j : InstructionImage} : Forward next (i :: j :: is) ↔
    (∀ o ∈ j.offset, i.offset.getD next < o) ∧ Forward (i.offset.getD next + 1 + i.operandOctets) (j :: is) := by
  simp only [Forward, starts, List.tail_cons, List.zip_cons_cons, List.forall_mem_cons]

/-- **Instructions stand in order exactly if none of them says otherwise**: where an instruction ends is past
where it stands. -/
theorem pairwise_lt_starts_iff : (starts next is).Pairwise (· < ·) ↔ Forward next is := by
  rw [← List.isChain_iff_pairwise]
  induction is generalizing next with
  | nil => simp [starts, Forward]
  | cons i is ih =>
    cases is with
    | nil => simp [starts, Forward]
    | cons j is =>
      have hfront : i.offset.getD next < j.offset.getD (i.offset.getD next + 1 + i.operandOctets) ↔
          ∀ o ∈ j.offset, i.offset.getD next < o := by
        cases j.offset with
        -- it stands where the one in front of it ends
        | none =>
          simp only [Option.getD_none, Option.not_mem_none, false_implies, implies_true, iff_true]
          omega
        | some o => simp
      rw [forward_cons_cons, ← ih, ← hfront]
      exact List.isChain_cons_cons

/-- Instructions that do not say where they stand, the first apart, stand in order. -/
theorem forward_of_derived (h : ∀ i ∈ is.tail, i.offset = none) : Forward next is := by
  intro p hp o ho
  rw [h p.2 (List.of_mem_zip hp).2] at ho
  cases ho

end

end InstructionImage

/-! ## Bodies of a module -/

/-- The instructions of the body, if it is looked at. -/
def MethodImage.bodies (m : MethodImage) : List (List InstructionImage) :=
  if m.isAbstract then [] else m.body.toList

def TypeImage.bodies (t : TypeImage) : List (List InstructionImage) := t.methods.flatMap MethodImage.bodies

def TypeDef.bodies (d : TypeDef) : List Body := d.methods.flatMap (·.body.toList)

/-- The bodies of all methods, also of nested types. -/
def Module.bodies (m : Module) : List Body := m.allTypes.flatMap TypeDef.bodies

namespace MethodImage

theorem bodies_of_withCode {scope : String} {m : MethodImage} {start draft : MethodDraft}
    (h : m.withCode scope start = .ok draft) (r : TypeRef) :
    List.Forall₂ (fun is b => InstructionImage.decode scope is = .ok b) m.bodies (draft.define r).body.toList := by
  revert h
  unfold withCode bodies
  cases m.isAbstract with
  | true =>
    intro h
    cases h
    exact .nil
  | false =>
    cases m.body with
    | none =>
      intro h
      cases h
      exact .nil
    | some is =>
      intro h
      obtain ⟨b, hb, h⟩ := bind_eq_ok.1 h
      cases h
      exact .cons hb .nil

theorem bodies_of_toDraft {scope declaring : String} {m : MethodImage} {draft : MethodDraft}
    (h : m.toDraft scope declaring = .ok draft) (r : TypeRef) :
    List.Forall₂ (fun is b => InstructionImage.decode scope is = .ok b) m.bodies (draft.define r).body.toList := by
  unfold toDraft at h
  cases hblank : Text.isBlank m.name with
  | true =>
    rw [hblank] at h
    exact absurd ⟨draft, h⟩ (not_succeeds_throw _ _)
  | false =>
    rw [hblank] at h
    cases hreturns : m.returns
    -- what follows the return type does not depend on it
    all_goals
      simp only [hreturns, Bool.false_eq_true, if_false] at h
      obtain ⟨_, -, h⟩ := bind_eq_ok.1 h
      obtain ⟨_, -, h⟩ := bind_eq_ok.1 h
      obtain ⟨_, -, h⟩ := bind_eq_ok.1 h
      exact bodies_of_withCode h r

end MethodImage

namespace TypeImage

/-- The methods of a definition are those of the image. -/
theorem methods_of_toDef {scope ns name : String} {t : TypeImage} {d : TypeDef} (h : t.toDef scope ns name = .ok d) :
    ∃ declaring drafts, t.methods.mapM (·.toDraft scope declaring) = .ok drafts ∧
      d.methods = drafts.map (·.define d.reference) := by
  obtain ⟨own, kind, isAbstract, isSealed, base, interfaces, genericParams, attributes, fields, methods, nested⟩ := t
  rw [toDef] at h
  split at h
  · exact absurd ⟨d, h⟩ (not_succeeds_throw _ _)
  · simp only [bind_eq_ok] at h
    obtain ⟨_, -, _, -, _, -, _, -, _, -, drafts, hdrafts, _, -, h⟩ := h
    cases h
    exact ⟨_, drafts, hdrafts, rfl⟩

theorem bodies_of_toDef {scope ns name : String} {t : TypeImage} {d : TypeDef} (h : t.toDef scope ns name = .ok d) :
    List.Forall₂ (fun is b => InstructionImage.decode scope is = .ok b) t.bodies d.bodies := by
  obtain ⟨_, drafts, hdrafts, hmethods⟩ := methods_of_toDef h
  rw [TypeDef.bodies, hmethods, List.flatMap_map]
  exact List.rel_flatMap (forall₂_of_mapM hdrafts) fun _ _ hdraft => MethodImage.bodies_of_toDraft hdraft _

end TypeImage

namespace ModuleImage

/-- The instructions of all bodies that are looked at, also those of nested types. -/
def bodies (m : ModuleImage) : List (List InstructionImage) :=
  (m.types.flatMap TypeImage.withNested).flatMap TypeImage.bodies

variable {m : ModuleImage} {module : Module}

/-- What a conversion says of each type and its definition it says of all types of a module, place by place. -/
theorem forall₂_allTypes (h : m.toModule = .ok module) {R : TypeImage → TypeDef → Prop}
    (hR : ∀ ns t name d, TypeImage.toDef m.name ns name t = .ok d → R t d) :
    List.Forall₂ R (m.types.flatMap TypeImage.withNested) module.allTypes := by
  rw [Module.allTypes, TypeDef.withNestedAll_eq_flatMap]
  exact List.rel_flatMap (toDefs_eq_ok (toModule_eq_ok h).2) fun t d hd => TypeImage.forall₂_withNested (hR _) t hd

/-- **The bodies of a module are those of its image, decoded.** -/
theorem bodies_of_toModule (h : m.toModule = .ok module) :
    List.Forall₂ (fun is b => InstructionImage.decode m.name is = .ok b) m.bodies module.bodies :=
  List.rel_flatMap (forall₂_allTypes h fun _ _ _ _ => TypeImage.bodies_of_toDef) fun _ _ hd => hd

/-- Each method of a module made of an image is declared by its type. -/
theorem declaring_of_toModule (h : m.toModule = .ok module) :
    ∀ d ∈ module.allTypes, ∀ n ∈ d.methods, n.declaring = d.reference := by
  have hall : List.Forall₂ (fun _ d => ∀ n ∈ d.methods, n.declaring = d.reference)
      (m.types.flatMap TypeImage.withNested) module.allTypes := by
    refine forall₂_allTypes h fun _ t _ d hd n hn => ?_
    obtain ⟨_, drafts, -, hmethods⟩ := TypeImage.methods_of_toDef hd
    rw [hmethods] at hn
    obtain ⟨draft, -, rfl⟩ := List.mem_map.1 hn
    rfl
  exact forall_mem_right hall

theorem forall_mem_iff_of_forall₂ {α β : Type} {P : α → Prop} {Q : β → Prop} {xs : List α} {ys : List β}
    (h : List.Forall₂ (fun x y => P x ↔ Q y) xs ys) : (∀ x ∈ xs, P x) ↔ ∀ y ∈ ys, Q y := by
  induction h with
  | nil => simp
  | cons hxy _ ih => rw [List.forall_mem_cons, List.forall_mem_cons, hxy, ih]

/-- **Bodies stand in the order of their offsets exactly if no offset that is given leads back.** Each body of a
module is one of its image, decoded, and its instructions stand where those of the image do. They stand in order
exactly if none of them says that it stands where the one in front of it does, or before, which none does if only
the first says where it stands. -/
theorem offsets_ascend_iff (h : m.toModule = .ok module) :
    ((∀ b ∈ module.bodies, b.offsets.Pairwise (· < ·)) ↔ ∀ is ∈ m.bodies, InstructionImage.Forward 0 is) ∧
      List.Forall₂ (fun is b => InstructionImage.decode m.name is = .ok b ∧ b.offsets = InstructionImage.starts 0 is ∧
        (b.offsets.Pairwise (· < ·) ↔ InstructionImage.Forward 0 is)) m.bodies module.bodies ∧
      ∀ is ∈ m.bodies, (∀ i ∈ is.tail, i.offset = none) → InstructionImage.Forward 0 is := by
  have heach : List.Forall₂ (fun is b => InstructionImage.decode m.name is = .ok b ∧
      b.offsets = InstructionImage.starts 0 is ∧ (b.offsets.Pairwise (· < ·) ↔ InstructionImage.Forward 0 is))
      m.bodies module.bodies := by
    refine (bodies_of_toModule h).imp fun is b hb => ?_
    have hoffsets : b.offsets = InstructionImage.starts 0 is := (InstructionImage.decode_eq_ok.1 hb).offsets_eq_starts
    refine ⟨hb, hoffsets, ?_⟩
    rw [hoffsets]
    exact InstructionImage.pairwise_lt_starts_iff
  refine ⟨?_, heach, fun is _ hderived => InstructionImage.forward_of_derived hderived⟩
  exact (forall_mem_iff_of_forall₂ (heach.imp fun is b hb => hb.2.2.symm)).symm

/-- A method of a nested type, in whose body offsets are given and left out. -/
def mixed : ModuleImage :=
  let code : List InstructionImage :=
    [{ op := "nop" }, { offset := some 4, op := "ldc.i8", operand := some (.int 0) }, { op := "ret" }]
  { name := "Lib"
    types := [{ name := "Lib.Desk", nested := [{ name := "Drawer", methods := [{ name := "Open", body := some code }] }] }] }

theorem offsets_ascend_iff_mixed : ∃ module, mixed.toModule = .ok module ∧
    module.bodies.map Body.offsets = [[0, 4, 13]] ∧ ∀ b ∈ module.bodies, b.offsets.Pairwise (· < ·) := by
  have hconverts : mixed.toModule.toOption.map (·.bodies.map Body.offsets) = some [[0, 4, 13]] := by decide +kernel
  obtain ⟨module, hmodule, hoffsets⟩ := exists_ok_of_map hconverts
  exact ⟨module, hmodule, hoffsets, (offsets_ascend_iff hmodule).1.2 (by decide +kernel)⟩

/-- A method in whose body the last instruction says that it stands in front of the others. -/
def rewound : ModuleImage :=
  { name := "Lib"
    types := [{ name := "Lib.Desk", methods := [{ name := "Open", body := some InstructionImage.backwards }] }] }

theorem offsets_need_not_ascend : ∃ module, rewound.toModule = .ok module ∧
    ∃ b ∈ module.bodies, b.offsets = [7, 8, 2] ∧ ¬ b.offsets.Pairwise (· < ·) := by
  have hconverts : rewound.toModule.toOption.map (·.bodies.map Body.offsets) = some [[7, 8, 2]] := by decide +kernel
  obtain ⟨module, hmodule, hoffsets⟩ := exists_ok_of_map hconverts
  obtain ⟨b, hb, hb'⟩ := List.mem_map.1 (hoffsets ▸ List.mem_singleton_self [7, 8, 2])
  refine ⟨module, hmodule, b, hb, hb', ?_⟩
  rw [hb']
  decide

end ModuleImage

end Coupling
