/-
Texts cut at a character.

A text is cut last where no separator follows (`cutLast_eq_some_iff`), and is not cut
exactly if it holds none (`cutLast_eq_none_iff`). The pieces between separators are
those of `List.splitOn`.
-/
import Coupling.Text.Cut

namespace Coupling.Text

theorem cutLast_eq_none_iff {c : Char} {s : List Char} : cutLast c s = none ↔ c ∉ s := by
  induction s with
  | nil => simp [cutLast]
  | cons d ds ih =>
    rw [cutLast]
    cases hrest : cutLast c ds with
    | none =>
      have hds : c ∉ ds := ih.1 hrest
      by_cases hd : d = c
      · simp [hd]
      · simp [hd, hds, Ne.symm hd]
    | some cut =>
      have hds : c ∈ ds := Decidable.not_not.1 fun hnot => by simp [ih.2 hnot] at hrest
      simp [hds]

theorem cutLast_append {c : Char} {a : List Char} (b : List Char) (ha : c ∉ a) :
    cutLast c (b ++ c :: a) = some (b, a) := by
  induction b with
  | nil => simp [cutLast, cutLast_eq_none_iff.2 ha]
  | cons d b ih => simp [cutLast, ih]

theorem cutLast_eq_some_iff {c : Char} {s b a : List Char} :
    cutLast c s = some (b, a) ↔ s = b ++ c :: a ∧ c ∉ a := by
  constructor
  · intro hcut
    have hmem : c ∈ s.reverse := by simp [cutLast_eq_append hcut]
    obtain ⟨after, before, hrev, hafter⟩ := List.eq_append_cons_of_mem hmem
    have hs : s = before.reverse ++ c :: after.reverse := by
      rw [← List.reverse_reverse s, hrev]
      simp
    have hlast : c ∉ after.reverse := by simpa using hafter
    rw [hs, cutLast_append _ hlast, Option.some.injEq, Prod.mk.injEq] at hcut
    obtain ⟨rfl, rfl⟩ := hcut
    exact ⟨hs, hlast⟩
  · rintro ⟨rfl, ha⟩
    exact cutLast_append b ha

theorem splitOn_eq (c : Char) (s : List Char) : splitOn c s = List.splitOn c s := by
  induction s with
  | nil => rfl
  | cons d ds ih =>
    rw [splitOn, List.splitOn_cons_eq_if_modifyHead, ih]
    by_cases hd : d = c
    · simp [hd]
    · simp only [hd, if_false, beq_iff_eq]
      cases hpieces : List.splitOn c ds with
      | nil => exact absurd hpieces (List.splitOn_ne_nil c ds)
      | cons p ps => rfl

end Coupling.Text
