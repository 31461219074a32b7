/-
Sums of doubles.

The bits below the sign grow with the magnitude, and rounding keeps them in order
(`roundUnits_mono`) and leaves a double as it is (`roundUnits_unitsOf`). So adding a
cost to a distance never makes it shorter, and of two distances the shorter one never
becomes the longer. Whole numbers below `2^53` are doubles, and their sums are exact
(`add_ofNat`).
-/
import Coupling.Graph.Path
import Mathlib.Data.ENat.Basic
import Mathlib.Data.Nat.Log

namespace Coupling.Binary64

theorem exponentUnit_eq : exponentUnit = 2 ^ 52 := rfl

theorem infinityWord_eq : infinityWord = 2047 * 2 ^ 52 := rfl

/-! ## Rounding -/

/-- The quotient `n / 2 ^ s`, rounded to the nearest whole number, a tie to the even one. -/
def roundedShift (n s : Nat) : Nat :=
  if 2 * (n % 2 ^ s) > 2 ^ s || (2 * (n % 2 ^ s) == 2 ^ s && n / 2 ^ s % 2 == 1) then n / 2 ^ s + 1 else n / 2 ^ s

theorem roundUnits_one (n : Nat) :
    roundUnits n 1 = min ((n.log2 - 52) * 2 ^ 52 + roundedShift n (n.log2 - 52)) infinityWord := by
  simp only [roundUnits, roundedShift, Nat.div_one, Nat.one_shiftLeft, exponentUnit_eq]

theorem roundUnits_le (n : Nat) : roundUnits n 1 ≤ infinityWord := by
  rw [roundUnits_one]
  exact Nat.min_le_right _ _

theorem le_roundedShift (n s : Nat) : n / 2 ^ s ≤ roundedShift n s := by
  unfold roundedShift
  split <;> omega

theorem roundedShift_le (n s : Nat) : roundedShift n s ≤ n / 2 ^ s + 1 := by
  unfold roundedShift
  split <;> omega

theorem roundedShift_mul (m s : Nat) : roundedShift (m * 2 ^ s) s = m := by
  have hpos := Nat.two_pow_pos s
  simp [roundedShift, Nat.mul_mod_left, Nat.mul_div_cancel _ hpos, hpos.ne]

theorem roundedShift_mono {a b : Nat} (h : a ≤ b) (s : Nat) : roundedShift a s ≤ roundedShift b s := by
  rcases Nat.lt_or_ge (a / 2 ^ s) (b / 2 ^ s) with hlt | hge
  · exact (roundedShift_le a s).trans (hlt.trans_le (le_roundedShift b s))
  · -- with one quotient, the larger number has the larger rest
    have hquot : a / 2 ^ s = b / 2 ^ s := Nat.le_antisymm (Nat.div_le_div_right h) hge
    have hrest : a % 2 ^ s ≤ b % 2 ^ s := by
      have ha := Nat.div_add_mod a (2 ^ s)
      have hb := Nat.div_add_mod b (2 ^ s)
      rw [hquot] at ha
      omega
    unfold roundedShift
    rw [hquot]
    split
    · rename_i hup
      rw [if_pos ?_]
      simp only [Bool.or_eq_true, decide_eq_true_eq, Bool.and_eq_true, beq_iff_eq] at hup ⊢
      omega
    · split <;> omega

/-- A number has 53 binary places above its last `log2 - 52`, or fewer places in all. -/
theorem shifted_bounds (n : Nat) :
    n / 2 ^ (n.log2 - 52) < 2 ^ 53 ∧ (0 < n.log2 - 52 → 2 ^ 52 ≤ n / 2 ^ (n.log2 - 52)) := by
  have hlt : n < 2 ^ (n.log2 + 1) := Nat.lt_log2_self
  constructor
  · rw [Nat.div_lt_iff_lt_mul (Nat.two_pow_pos _), ← Nat.pow_add]
    exact hlt.trans_le (Nat.pow_le_pow_right (by decide) (by omega))
  · intro hshift
    have hne : n ≠ 0 := by
      rintro rfl
      simp at hshift
    rw [Nat.le_div_iff_mul_le (Nat.two_pow_pos _), ← Nat.pow_add, show 52 + (n.log2 - 52) = n.log2 by omega]
    exact Nat.log2_self_le hne

/-- Rounding keeps the order. -/
theorem roundUnits_mono {a b : Nat} (h : a ≤ b) : roundUnits a 1 ≤ roundUnits b 1 := by
  rw [roundUnits_one, roundUnits_one]
  refine min_le_min_right _ ?_
  have hlog : a.log2 ≤ b.log2 := by
    rw [Nat.log2_eq_log_two, Nat.log2_eq_log_two]
    exact Nat.log_mono_right h
  rcases Nat.lt_or_ge (a.log2 - 52) (b.log2 - 52) with hlt | hge
  · -- the smaller one carries at most into the next power of two
    have ha := (roundedShift_le a (a.log2 - 52)).trans (shifted_bounds a).1
    have hb := ((shifted_bounds b).2 (by omega)).trans (le_roundedShift b _)
    have hshift := Nat.mul_le_mul_right (2 ^ 52) hlt
    omega
  · have hshift : a.log2 - 52 = b.log2 - 52 := by omega
    rw [hshift]
    exact Nat.add_le_add_left (roundedShift_mono h _) _

theorem unitsOf_normal {s m : Nat} (hlo : 2 ^ 52 ≤ m) (hhi : m < 2 ^ 53) : unitsOf (s * 2 ^ 52 + m) = m * 2 ^ s := by
  have hquot : (s * 2 ^ 52 + m) / 2 ^ 52 - 1 = s := by omega
  have hrest : 2 ^ 52 + (s * 2 ^ 52 + m) % 2 ^ 52 = m := by omega
  rw [unitsOf, exponentUnit_eq, if_neg (by omega), hquot, hrest, Nat.shiftLeft_eq]

/-- The bits of a normal double are a shift and 53 places. -/
theorem exists_normal {w : Nat} (hw : 2 ^ 52 ≤ w) : ∃ s m, 2 ^ 52 ≤ m ∧ m < 2 ^ 53 ∧ w = s * 2 ^ 52 + m :=
  ⟨w / 2 ^ 52 - 1, 2 ^ 52 + w % 2 ^ 52, by omega, by omega, by omega⟩

/-- A double is its own rounding. -/
theorem roundUnits_unitsOf {w : Nat} (hw : w ≤ infinityWord) : roundUnits (unitsOf w) 1 = w := by
  rw [roundUnits_one]
  rcases Nat.lt_or_ge w (2 ^ 52) with hlt | hge
  · have hunits : unitsOf w = w := by rw [unitsOf, exponentUnit_eq, if_pos hlt]
    have hshift : w.log2 - 52 = 0 := by
      rcases Nat.eq_zero_or_pos w with rfl | hpos
      · rfl
      · have := (Nat.log2_lt hpos.ne').2 hlt
        omega
    have hround := roundedShift_mul w 0
    rw [pow_zero, mul_one] at hround
    rw [hunits, hshift, hround]
    omega
  · obtain ⟨s, m, hlo, hhi, rfl⟩ := exists_normal hge
    have hlog : (m * 2 ^ s).log2 = 52 + s := by
      have hpos := Nat.two_pow_pos s
      have hne : m * 2 ^ s ≠ 0 := (Nat.mul_pos (by omega) hpos).ne'
      rw [Nat.log2_eq_iff hne, Nat.pow_add, Nat.add_right_comm, Nat.pow_add]
      exact ⟨Nat.mul_le_mul_right _ hlo, Nat.mul_lt_mul_of_pos_right hhi hpos⟩
    rw [unitsOf_normal hlo hhi, hlog, Nat.add_sub_cancel_left, roundedShift_mul]
    exact Nat.min_eq_left hw

theorem unitsOf_zero : unitsOf 0 = 0 := rfl

theorem roundUnits_zero : roundUnits 0 1 = 0 := by
  have hround := roundUnits_unitsOf (Nat.zero_le infinityWord)
  rwa [unitsOf_zero] at hround

theorem unitsOf_lt_unitsOf {v w : Nat} (hw : w ≤ infinityWord) (h : v < w) : unitsOf v < unitsOf w := by
  by_contra hle
  have hround := roundUnits_mono (not_lt.1 hle)
  rw [roundUnits_unitsOf hw, roundUnits_unitsOf (h.le.trans hw)] at hround
  omega

theorem unitsOf_le_unitsOf {v w : Nat} (hw : w ≤ infinityWord) (h : v ≤ w) : unitsOf v ≤ unitsOf w := by
  rcases h.eq_or_lt with rfl | hlt
  · exact le_rfl
  · exact (unitsOf_lt_unitsOf hw hlt).le

/-! ## Distances -/

/-- A double that is a sum of costs: it is a number, and has no minus sign. -/
structure IsDistance (x : Binary64) : Prop where
  isNaN : x.isNaN = false
  isNegative : x.isNegative = false

theorem word_ofWord {w : Nat} (hw : w ≤ infinityWord) : (ofWord false w).word = w := by
  show (UInt64.ofNat w).toNat = w
  rw [UInt64.toNat_ofNat', Nat.mod_eq_of_lt (hw.trans_lt (by decide))]

theorem magnitude_ofWord {w : Nat} (hw : w ≤ infinityWord) : (ofWord false w).magnitude = w := by
  rw [magnitude, word_ofWord hw, Nat.mod_eq_of_lt (hw.trans_lt (by decide))]

theorem isDistance_ofWord {w : Nat} (hw : w ≤ infinityWord) : (ofWord false w).IsDistance where
  isNaN := by
    rw [isNaN, magnitude_ofWord hw]
    exact decide_eq_false (not_lt.2 hw)
  isNegative := by
    rw [isNegative, word_ofWord hw]
    exact decide_eq_false (not_le.2 (hw.trans_lt (by decide)))

namespace IsDistance

variable {x y : Binary64}

theorem magnitude_le (hx : x.IsDistance) : x.magnitude ≤ infinityWord := not_lt.1 (of_decide_eq_false hx.isNaN)

/-- The bits of a distance are those below the sign. -/
theorem eq_ofWord (hx : x.IsDistance) : x = ofWord false x.magnitude := by
  have hword : x.word < signUnit := not_le.1 (of_decide_eq_false hx.isNegative)
  have hbits : x.bits = UInt64.ofNat x.magnitude := by
    rw [magnitude, Nat.mod_eq_of_lt hword, word, UInt64.ofNat_toNat]
  cases x
  exact congrArg Binary64.mk hbits

/-- Distances are in the order of their bits. -/
theorem lt_iff (hx : x.IsDistance) (hy : y.IsDistance) : x.lt y = true ↔ x.magnitude < y.magnitude := by
  simp [lt, rank, hx.isNaN, hy.isNaN, hx.isNegative, hy.isNegative]

theorem totalCompare_eq (hx : x.IsDistance) (hy : y.IsDistance) :
    x.totalCompare y = compare x.magnitude y.magnitude := by
  simp only [totalCompare, totalRank, hx.isNegative, hy.isNegative, Bool.false_eq_true, if_false, compare,
    compareOfLessAndEq, Int.ofNat_lt, Int.natCast_inj]

end IsDistance

/-! ## Adding a cost -/

theorem isValid_iff {c : Binary64} :
    Cost.isValid c = true ↔ c.isNaN = false ∧ (c.isNegative = true → c.magnitude = 0) := by
  have hzero : zero.isNaN = false ∧ zero.rank = 0 := by decide
  have hlt : c.lt zero = (!c.isNaN && c.rank < 0) := by rw [lt, hzero.1, hzero.2, Bool.not_false, Bool.and_true]
  show (!(c.isNaN || c.lt zero)) = true ↔ _
  rw [hlt, rank]
  cases c.isNaN <;> cases c.isNegative <;> simp

theorem IsDistance.isValid {x : Binary64} (hx : x.IsDistance) : Cost.isValid x = true :=
  isValid_iff.2 ⟨hx.isNaN, by simp [hx.isNegative]⟩

/-- A cost is never below zero, as its minus sign is that of a zero. -/
theorem signedUnits_of_isValid {c : Binary64} (hc : Cost.isValid c = true) : c.signedUnits = c.units := by
  unfold signedUnits
  split
  · rename_i hneg
    rw [units, (isValid_iff.1 hc).2 hneg, unitsOf_zero]
    rfl
  · rfl

variable {a b c : Binary64}

/-- Adding a cost to a distance rounds the sum, also where one of them is infinite. -/
theorem IsDistance.add_eq (ha : a.IsDistance) (hc : Cost.isValid c = true) :
    a.add c = ofWord false (roundUnits (a.units + c.units) 1) := by
  obtain ⟨hnan, hzero⟩ := isValid_iff.1 hc
  have hoverflow : ∀ {n}, unitsOf infinityWord ≤ n → roundUnits n 1 = infinityWord := by
    intro n hn
    have hround := roundUnits_mono hn
    rw [roundUnits_unitsOf le_rfl] at hround
    exact Nat.le_antisymm (roundUnits_le n) hround
  rw [add, ha.isNaN, hnan]
  by_cases hainf : a.isInfinite = true
  · -- an infinite cost has no minus sign either
    have hword : a.magnitude = infinityWord := beq_iff_eq.1 hainf
    have hsign : (c.isInfinite && a.isNegative != c.isNegative) = false := by
      cases hneg : c.isNegative <;> simp [isInfinite, ha.isNegative, hneg, hzero, infinityWord_eq]
    rw [hainf, hsign, hoverflow (by rw [units, hword]; exact Nat.le_add_right _ _), ← hword]
    exact ha.eq_ofWord
  · by_cases hcinf : c.isInfinite = true
    · have hword : c.magnitude = infinityWord := beq_iff_eq.1 hcinf
      have hneg : c.isNegative = false := by
        cases hneg : c.isNegative
        · rfl
        · simp [hzero hneg, infinityWord_eq] at hword
      rw [hcinf, hoverflow (n := a.units + c.units) (by rw [units, units, hword]; exact Nat.le_add_left _ _), ← hword]
      simpa [hainf] using IsDistance.eq_ofWord ⟨hnan, hneg⟩
    · have hsigned : a.signedUnits + c.signedUnits = ((a.units + c.units : Nat) : Int) := by
        rw [signedUnits_of_isValid ha.isValid, signedUnits_of_isValid hc, Int.natCast_add]
      simp only [hainf, hcinf, hsigned, Bool.false_eq_true, Bool.or_self, if_false]
      split
      · rename_i hsum
        rw [Int.natCast_eq_zero.1 hsum, ha.isNegative, roundUnits_zero, Bool.false_and]
      · rw [Int.natAbs_natCast, decide_eq_false (by omega)]

theorem IsDistance.add (ha : a.IsDistance) (hc : Cost.isValid c = true) : (a.add c).IsDistance := by
  rw [ha.add_eq hc]
  exact isDistance_ofWord (roundUnits_le _)

theorem IsDistance.magnitude_add (ha : a.IsDistance) (hc : Cost.isValid c = true) :
    (a.add c).magnitude = roundUnits (a.units + c.units) 1 := by
  rw [ha.add_eq hc, magnitude_ofWord (roundUnits_le _)]

/-- A cost never makes a distance shorter. -/
theorem IsDistance.le_add (ha : a.IsDistance) (hc : Cost.isValid c = true) : a.magnitude ≤ (a.add c).magnitude := by
  rw [ha.magnitude_add hc]
  calc a.magnitude = roundUnits a.units 1 := (roundUnits_unitsOf ha.magnitude_le).symm
    _ ≤ roundUnits (a.units + c.units) 1 := roundUnits_mono (Nat.le_add_right _ _)

/-- The longer of two distances does not become the shorter one by a cost. -/
theorem IsDistance.add_le_add (ha : a.IsDistance) (hb : b.IsDistance) (hc : Cost.isValid c = true)
    (h : a.magnitude ≤ b.magnitude) : (a.add c).magnitude ≤ (b.add c).magnitude := by
  rw [ha.magnitude_add hc, hb.magnitude_add hc]
  exact roundUnits_mono (Nat.add_le_add_right (unitsOf_le_unitsOf hb.magnitude_le h) _)

/-! ## What a cost is worth -/

/-- The value of a double that is not negative, in units of `2^-1074`. -/
def value (x : Binary64) : ℕ∞ := if x.isInfinite then ⊤ else x.units

theorem IsDistance.value_le_value (hb : b.IsDistance) (h : a.magnitude ≤ b.magnitude) : a.value ≤ b.value := by
  unfold value
  by_cases hinf : b.isInfinite = true
  · simp [hinf]
  · have hne : b.magnitude ≠ infinityWord := by simpa [isInfinite] using hinf
    have hfinite : a.isInfinite = false := by
      have := hb.magnitude_le
      exact beq_eq_false_iff_ne.2 (by omega)
    simp only [hinf, hfinite, Bool.false_eq_true, if_false]
    exact Nat.cast_le.2 (unitsOf_le_unitsOf hb.magnitude_le h)

/-- A whole number below `2^53` is a double. -/
theorem exists_unitsOf_eq {n : Nat} (hn : n < 2 ^ 53) : ∃ w < infinityWord, unitsOf w = n * unitScale := by
  rcases Nat.eq_zero_or_pos n with rfl | hpos
  · exact ⟨0, by decide, by rw [unitsOf_zero, Nat.zero_mul]⟩
  · have hlog : n.log2 ≤ 52 := by
      have := (Nat.log2_lt hpos.ne').2 hn
      omega
    have hlo : 2 ^ 52 ≤ n * 2 ^ (52 - n.log2) := by
      calc 2 ^ 52 = 2 ^ n.log2 * 2 ^ (52 - n.log2) := by rw [← Nat.pow_add, Nat.add_sub_cancel' hlog]
        _ ≤ n * 2 ^ (52 - n.log2) := Nat.mul_le_mul_right _ (Nat.log2_self_le hpos.ne')
    have hhi : n * 2 ^ (52 - n.log2) < 2 ^ 53 := by
      calc n * 2 ^ (52 - n.log2) < 2 ^ (n.log2 + 1) * 2 ^ (52 - n.log2) :=
            Nat.mul_lt_mul_of_pos_right Nat.lt_log2_self (Nat.two_pow_pos _)
        _ = 2 ^ 53 := by rw [← Nat.pow_add, show n.log2 + 1 + (52 - n.log2) = 53 by omega]
    refine ⟨(1022 + n.log2) * 2 ^ 52 + n * 2 ^ (52 - n.log2), by rw [infinityWord_eq]; omega, ?_⟩
    rw [unitsOf_normal hlo hhi, Nat.mul_assoc, ← Nat.pow_add, show 52 - n.log2 + (1022 + n.log2) = 1074 by omega,
      unitScale, Nat.one_shiftLeft]

theorem ofNat_eq (n : Nat) : ofNat n = ofWord false (roundUnits (n * unitScale) 1) := rfl

theorem ofNat_zero : ofNat 0 = zero := by
  rw [ofNat_eq, Nat.zero_mul, roundUnits_zero, zero]

theorem isDistance_ofNat (n : Nat) : (ofNat n).IsDistance := isDistance_ofWord (roundUnits_le _)

/-- Whole numbers below `2^53` are worth what they say. -/
theorem units_ofNat {n : Nat} (hn : n < 2 ^ 53) :
    (ofNat n).units = n * unitScale ∧ (ofNat n).isInfinite = false := by
  obtain ⟨w, hw, hunits⟩ := exists_unitsOf_eq hn
  have hmagnitude : (ofNat n).magnitude = w := by
    rw [ofNat_eq, ← hunits, roundUnits_unitsOf hw.le, magnitude_ofWord hw.le]
  rw [units, isInfinite, hmagnitude]
  exact ⟨hunits, beq_eq_false_iff_ne.2 hw.ne⟩

theorem value_ofNat {n : Nat} (hn : n < 2 ^ 53) : (ofNat n).value = (n * unitScale : Nat) := by
  obtain ⟨hunits, hfinite⟩ := units_ofNat hn
  simp [value, hfinite, hunits]

/-- **Whole numbers add up exactly** while the sum stays below `2^53`. -/
theorem add_ofNat {m n : Nat} (h : m + n < 2 ^ 53) : (ofNat m).add (ofNat n) = ofNat (m + n) := by
  have hm := (units_ofNat (show m < 2 ^ 53 by omega)).1
  have hn := (units_ofNat (show n < 2 ^ 53 by omega)).1
  rw [(isDistance_ofNat m).add_eq (isDistance_ofNat n).isValid, hm, hn, ← Nat.add_mul, ofNat_eq]

end Coupling.Binary64
