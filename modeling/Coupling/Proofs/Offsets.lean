/-
Where instructions stand.

The offset after an instruction is found in steps of which each must fit 32 bits:
past the mnemonic, the size of the operand, which for a table of targets takes
three steps of its own, and past the operand. `Operand.octets` is the size as a
number without a bound, and every chain of steps comes to the one question
whether its outcome fits (`size?_eq`, `nextOffset?_eq`).

Operations that are placed one after the other stand at the octets that those
before them take, cut off at the largest offset: what is added to a sum that was
cut off is cut off again (`nextOffset?_getD`), so that the sums need no bound on
the way (`getElem?_place`).
-/
import Coupling.Method
import Mathlib.Algebra.BigOperators.Group.List.Basic
import Mathlib.Algebra.Ring.Nat

namespace Coupling

/-! ## Checked steps -/

theorem word?_of_le {n : Nat} (h : n ≤ offsetMax) : word? n = some n := if_pos h

theorem word?_of_lt {n : Nat} (h : offsetMax < n) : word? n = none := if_neg (by omega)

theorem getD_word? (n : Nat) : (word? n).getD offsetMax = min offsetMax n := by
  by_cases h : n ≤ offsetMax
  · rw [word?_of_le h, Option.getD_some, Nat.min_eq_right h]
  · rw [word?_of_lt (by omega), Option.getD_none, Nat.min_eq_left (by omega)]

/-- Where a step does not make a number smaller, only its outcome needs to be checked. -/
theorem word?_bind_word? {n : Nat} {f : Nat → Nat} (h : n ≤ f n) :
    (word? n >>= fun k => word? (f k)) = word? (f n) := by
  by_cases hn : n ≤ offsetMax
  · rw [word?_of_le hn]
    rfl
  · rw [word?_of_lt (by omega), word?_of_lt (by omega)]
    rfl

namespace Operand

/-- Octets an operand takes, whatever their number. -/
def octets : Operand → Nat
  | .none => 0
  | .localVar _ | .argument _ => 2
  | .int _ | .float _ => 8
  | .switch targets => 4 * targets.length + 4
  | .type _ | .method _ | .field _ | .target _ | .string _ => 4

/-- **An operand has a size if its octets can be counted in 32 bits.** -/
theorem size?_eq (o : Operand) : o.size? = word? o.octets := by
  cases o with
  | switch targets =>
    have htable : ∀ count, (word? (count * 4) >>= fun table => word? (table + 4)) = word? (count * 4 + 4) := fun count =>
      word?_bind_word? (Nat.le_add_right _ 4)
    simp only [size?, htable, octets, Nat.mul_comm 4]
    exact word?_bind_word? (f := fun count => count * 4 + 4) (by omega)
  | none | localVar | argument | int | float | type | method | field | target | string => rfl

/-- **The next offset is the octets up to it, if they can be counted in 32 bits.** -/
theorem nextOffset?_eq (o : Operand) (offset : Nat) : o.nextOffset? offset = word? (offset + 1 + o.octets) := by
  have hsize : ∀ start, (word? o.octets >>= fun size => word? (start + size)) = word? (start + o.octets) := fun start =>
    word?_bind_word? (Nat.le_add_left _ start)
  simp only [nextOffset?, size?_eq, hsize]
  exact word?_bind_word? (Nat.le_add_right _ o.octets)

/-- What is added to an offset that was cut off is cut off again. -/
theorem nextOffset?_getD (o : Operand) (start : Nat) :
    (o.nextOffset? (min offsetMax start)).getD offsetMax = min offsetMax (start + 1 + o.octets) := by
  rw [nextOffset?_eq, getD_word?]
  omega

end Operand

/-! ## Placed operations -/

namespace Body

/-- The offsets of the instructions. -/
def offsets (b : Body) : List Nat := b.instructions.map Instruction.offset

/-- Octets that operations take: one for a mnemonic, and its operand's. -/
def extent (ops : List (String × Operand)) : Nat := (ops.map fun op => 1 + op.2.octets).sum

@[simp] theorem extent_nil : extent [] = 0 := rfl

@[simp] theorem extent_cons (op : String × Operand) (ops : List (String × Operand)) :
    extent (op :: ops) = 1 + op.2.octets + extent ops := by
  simp [extent]

theorem extent_append (ops ops' : List (String × Operand)) : extent (ops ++ ops') = extent ops + extent ops' := by
  simp [extent]

theorem length_le_extent (ops : List (String × Operand)) : ops.length ≤ extent ops := by
  induction ops with
  | nil => simp
  | cons op ops ih =>
    rw [List.length_cons, extent_cons]
    omega

/-- Every operation takes an octet at least. -/
theorem extent_take_lt {ops : List (String × Operand)} {i j : Nat} (hij : i < j) (hj : j ≤ ops.length) :
    extent (ops.take i) < extent (ops.take j) := by
  have hfront : ops.take i = (ops.take j).take i := by rw [List.take_take, Nat.min_eq_left (by omega)]
  have hsplit := congrArg extent (List.take_append_drop i (ops.take j))
  have hbetween := length_le_extent ((ops.take j).drop i)
  rw [List.length_drop, List.length_take] at hbetween
  rw [extent_append, ← hfront] at hsplit
  omega

/-- **Placed operations stand at the octets before them, cut off at the largest offset.** -/
theorem getElem?_place (ops : List (String × Operand)) (start i : Nat) :
    (place (min offsetMax start) ops)[i]? =
      ops[i]?.map fun op => ⟨min offsetMax (start + extent (ops.take i)), op.1, op.2⟩ := by
  induction ops generalizing start i with
  | nil => simp [place]
  | cons op ops ih =>
    rw [place, Operand.nextOffset?_getD]
    cases i with
    | zero => simp
    | succ i =>
      rw [List.getElem?_cons_succ, ih, List.getElem?_cons_succ, List.take_succ_cons, extent_cons]
      simp only [Nat.add_assoc]

theorem getElem?_ofOperations (ops : List (String × Operand)) (i : Nat) :
    (ofOperations ops).instructions[i]? =
      ops[i]?.map fun op => ⟨min offsetMax (extent (ops.take i)), op.1, op.2⟩ := by
  have hplace := getElem?_place ops 0 i
  rw [Nat.min_zero, Nat.zero_add] at hplace
  exact hplace

theorem offsets_ofOperations (ops : List (String × Operand)) :
    (ofOperations ops).offsets = (List.range ops.length).map fun i => min offsetMax (extent (ops.take i)) := by
  refine List.ext_getElem? fun i => ?_
  rw [offsets, List.getElem?_map, getElem?_ofOperations, List.getElem?_map]
  by_cases hi : i < ops.length
  · simp [hi]
  · simp [Nat.le_of_not_lt hi]

/-! ## Order -/

theorem pairwise_le_offsets (ops : List (String × Operand)) : (ofOperations ops).offsets.Pairwise (· ≤ ·) := by
  rw [offsets_ofOperations, List.pairwise_map]
  refine List.pairwise_lt_range.imp_of_mem fun {i j} _ hj hij => ?_
  have hlt := extent_take_lt hij (Nat.le_of_lt (List.mem_range.1 hj))
  omega

/-- **Offsets differ exactly if the last but one is not cut off**: the last may be, and no other can be then. -/
theorem pairwise_lt_offsets_iff (ops : List (String × Operand)) :
    (ofOperations ops).offsets.Pairwise (· < ·) ↔ extent (ops.take (ops.length - 2)) < offsetMax := by
  rw [offsets_ofOperations, List.pairwise_map]
  constructor
  · intro h
    by_cases hlength : ops.length < 2
    · have hnone : ops.length - 2 = 0 := by omega
      rw [hnone, List.take_zero, extent_nil]
      decide
    -- the last but one is below the last, which is not above the largest offset
    · have hlast := List.pairwise_iff_getElem.1 h (ops.length - 2) (ops.length - 1) (by simp; omega) (by simp; omega)
        (by omega)
      simp only [List.getElem_range] at hlast
      omega
  · intro h
    refine List.pairwise_lt_range.imp_of_mem fun {i j} _ hj hij => ?_
    have hj' := List.mem_range.1 hj
    have hlt := extent_take_lt hij (Nat.le_of_lt hj')
    have hbelow : extent (ops.take i) ≤ extent (ops.take (ops.length - 2)) := by
      rcases Nat.lt_or_eq_of_le (show i ≤ ops.length - 2 by omega) with hi | hi
      · exact Nat.le_of_lt (extent_take_lt hi (by omega))
      · rw [hi]
    omega

theorem le_offsetMax_of_mem_offsets {ops : List (String × Operand)} {o : Nat} (ho : o ∈ (ofOperations ops).offsets) :
    o ≤ offsetMax := by
  rw [offsets_ofOperations] at ho
  obtain ⟨i, -, rfl⟩ := List.mem_map.1 ho
  exact Nat.min_le_left _ _

theorem getLast?_offsets (ops : List (String × Operand)) (h : ops ≠ []) :
    (ofOperations ops).offsets.getLast? = some (min offsetMax (extent (ops.take (ops.length - 1)))) := by
  have hpos := List.length_pos_iff.2 h
  rw [offsets_ofOperations, List.getLast?_eq_getElem?, List.length_map, List.length_range, List.getElem?_map,
    List.getElem?_range (by omega)]
  rfl

/-- **Placed operations stand at sums of sizes, cut off at the largest offset.** A size is the number of an
operand's octets, if that can be counted in 32 bits; the sums are taken without a bound. So no offset is out of
range, none is before the one in front of it, and all differ if the last is not the largest offset there is. -/
theorem ofOperations_saturates (ops : List (String × Operand)) :
    (∀ o : Operand, o.size? = word? o.octets) ∧
      (∀ i : Nat, (ofOperations ops).instructions[i]? =
        ops[i]?.map fun op => ⟨min offsetMax (extent (ops.take i)), op.1, op.2⟩) ∧
      (∀ o ∈ (ofOperations ops).offsets, o ≤ offsetMax) ∧
      (ofOperations ops).offsets.Pairwise (· ≤ ·) ∧
      ((∀ last ∈ (ofOperations ops).offsets.getLast?, last < offsetMax) →
        (ofOperations ops).offsets.Pairwise (· < ·)) ∧
      ((ofOperations ops).offsets.Pairwise (· < ·) ↔ extent (ops.take (ops.length - 2)) < offsetMax) := by
  refine ⟨Operand.size?_eq, getElem?_ofOperations ops, fun o ho => le_offsetMax_of_mem_offsets ho,
    pairwise_le_offsets ops, fun hlast => ?_, pairwise_lt_offsets_iff ops⟩
  rw [pairwise_lt_offsets_iff]
  by_cases hops : ops = []
  · rw [hops]
    decide
  · have hend := hlast _ (getLast?_offsets ops hops)
    have hpos := List.length_pos_iff.2 hops
    rcases Nat.lt_or_ge (ops.length - 2) (ops.length - 1) with hlt | hge
    · have hbelow : extent (ops.take (ops.length - 2)) < extent (ops.take (ops.length - 1)) :=
        extent_take_lt hlt (by omega)
      omega
    · have hone : ops.length - 2 = ops.length - 1 := by omega
      rw [hone]
      omega

/-- A table of `n` targets and two more instructions. -/
def branching (n : Nat) : List (String × Operand) :=
  [("switch", .switch (List.replicate n 0)), ("ldc.i8", .int 0), ("ret", .none)]

theorem offsets_branching (n : Nat) :
    (ofOperations (branching n)).offsets = [0, min offsetMax (4 * n + 5), min offsetMax (4 * n + 14)] := by
  have hsizes : extent ((branching n).take 1) = 4 * n + 5 ∧ extent ((branching n).take 2) = 4 * n + 14 := by
    simp only [branching, List.take_succ_cons, List.take_zero, extent_cons, extent_nil, Operand.octets,
      List.length_replicate]
    omega
  rw [offsets_ofOperations]
  show [_, min offsetMax (extent ((branching n).take 1)), min offsetMax (extent ((branching n).take 2))] = _
  rw [hsizes.1, hsizes.2]
  rfl

/-- With one target more the last offset would be cut off. -/
theorem ofOperations_saturates_branching :
    (ofOperations (branching 1073741820)).offsets = [0, 4294967285, 4294967294] ∧
      (ofOperations (branching 1073741820)).offsets.Pairwise (· < ·) := by
  refine ⟨offsets_branching _, (ofOperations_saturates _).2.2.2.2.1 ?_⟩
  rw [offsets_branching]
  decide

end Body

end Coupling
