/-
The order of texts is the order of their octets.

Texts are compared character by character. The octets of a smaller character come
first, whatever follows them (`utf8EncodeChar_append_lt`): a character that takes
more octets starts with a greater one, and among those that take as many the bits
stand in order. So comparing the octets of texts gives the same order
(`octets_lt_octets`).
-/
import Coupling.Proofs.Json.Spelling

namespace Coupling.Json

/-- Octets are compared at the first place where they differ. -/
theorem ofNat_cons_append_lt {a b : Nat} {as bs : List UInt8} (ha : a < 256) (hb : b < 256)
    (h : a < b ∨ a = b ∧ ∀ xs ys, as ++ xs < bs ++ ys) (xs ys : List UInt8) :
    UInt8.ofNat a :: as ++ xs < UInt8.ofNat b :: bs ++ ys := by
  rw [List.cons_append, List.cons_append, List.cons_lt_cons_iff]
  rcases h with h | ⟨rfl, h⟩
  · exact .inl ((UInt8.ofNat_lt_iff_lt ha hb).2 h)
  · exact .inr ⟨rfl, h xs ys⟩

/-- Numbers are compared by an octet of their upper bits, and then by the octets of those below `k`. -/
theorem upper_bits_append_lt {v w k m mark : Nat} {as bs : List UInt8} (hk : 0 < k) (hm : 0 < m)
    (hmark : m + mark ≤ 256) (h : v % (k * m) < w % (k * m))
    (hlower : v % k < w % k → ∀ xs ys, as ++ xs < bs ++ ys) (xs ys : List UInt8) :
    UInt8.ofNat (v / k % m + mark) :: as ++ xs < UInt8.ofNat (w / k % m + mark) :: bs ++ ys := by
  have hv : v / k % m < m := Nat.mod_lt _ hm
  have hw : w / k % m < m := Nat.mod_lt _ hm
  rw [Nat.mod_mul, Nat.mod_mul] at h
  refine ofNat_cons_append_lt (by omega) (by omega) ?_ xs ys
  rcases Nat.lt_trichotomy (v / k % m) (w / k % m) with hlt | heq | hgt
  · exact .inl (by omega)
  · rw [heq] at h ⊢
    exact .inr ⟨rfl, hlower (by omega)⟩
  · have hstep : k * (w / k % m + 1) ≤ k * (v / k % m) := Nat.mul_le_mul_left k hgt
    have hrest : w % k < k := Nat.mod_lt _ hk
    rw [Nat.mul_add] at hstep
    omega

theorem lower_bits_append_lt {v w : Nat} (h : v % 64 < w % 64) :
    ∀ xs ys, [UInt8.ofNat (v % 64 + 128)] ++ xs < [UInt8.ofNat (w % 64 + 128)] ++ ys :=
  ofNat_cons_append_lt (by omega) (by omega) (.inl (by omega))

/-- **The octets of a smaller character come first.** -/
theorem utf8EncodeChar_append_lt {c d : Char} (h : c < d) (xs ys : List UInt8) :
    String.utf8EncodeChar c ++ xs < String.utf8EncodeChar d ++ ys := by
  have hval : c.val.toNat < d.val.toNat := UInt32.lt_iff_toNat_lt.1 (Char.lt_def.1 h)
  have hmax : d.val.toNat < 0x110000 := by
    have hvalid := d.valid
    simp only [UInt32.isValidChar, Nat.isValidChar] at hvalid
    omega
  unfold String.utf8EncodeChar
  generalize c.val.toNat = v at hval
  generalize d.val.toNat = w at hval hmax
  dsimp only
  -- by the number of octets of the smaller character: the greater one has as many, or more and a greater first one
  by_cases hv₁ : v ≤ 0x7f
  · rw [if_pos hv₁]
    split
    · exact ofNat_cons_append_lt (by omega) (by omega) (.inl hval) xs ys
    · split
      · exact ofNat_cons_append_lt (by omega) (by omega) (.inl (by omega)) xs ys
      · split <;> exact ofNat_cons_append_lt (by omega) (by omega) (.inl (by omega)) xs ys
  rw [if_neg hv₁, if_neg (by omega : ¬ w ≤ 0x7f)]
  by_cases hv₂ : v ≤ 0x7ff
  · rw [if_pos hv₂]
    split
    · refine upper_bits_append_lt (by omega) (by omega) (by omega) (by omega) (fun hlast => ?_) xs ys
      exact lower_bits_append_lt hlast
    · split <;> exact ofNat_cons_append_lt (by omega) (by omega) (.inl (by omega)) xs ys
  rw [if_neg hv₂, if_neg (by omega : ¬ w ≤ 0x7ff)]
  by_cases hv₃ : v ≤ 0xffff
  · rw [if_pos hv₃]
    split
    · refine upper_bits_append_lt (by omega) (by omega) (by omega) (by omega) (fun hsecond => ?_) xs ys
      refine upper_bits_append_lt (by omega) (by omega) (by omega) hsecond fun hlast => ?_
      exact lower_bits_append_lt hlast
    · exact ofNat_cons_append_lt (by omega) (by omega) (.inl (by omega)) xs ys
  rw [if_neg hv₃, if_neg (by omega : ¬ w ≤ 0xffff)]
  refine upper_bits_append_lt (by omega) (by omega) (by omega) (by omega) (fun hsecond => ?_) xs ys
  refine upper_bits_append_lt (by omega) (by omega) (by omega) hsecond fun hthird => ?_
  refine upper_bits_append_lt (by omega) (by omega) (by omega) hthird fun hlast => ?_
  exact lower_bits_append_lt hlast

/-- **The octets of a smaller text come first.** -/
theorem octets_lt_octets {a b : String} (h : a < b) : octets a < octets b := by
  have hlex : List.Lex (· < ·) a.toList b.toList := h
  rw [octets_eq, octets_eq]
  generalize a.toList = cs at hlex
  generalize b.toList = ds at hlex
  induction hlex with
  | nil =>
    rename_i d ds
    cases hoctets : (d :: ds).flatMap String.utf8EncodeChar with
    | nil => simp at hoctets
    | cons o os => exact List.nil_lt_cons o os
  | rel hlt =>
    rw [List.flatMap_cons, List.flatMap_cons]
    exact utf8EncodeChar_append_lt hlt _ _
  | cons _ ih =>
    rw [List.flatMap_cons, List.flatMap_cons]
    exact List.append_left_lt ih

end Coupling.Json
