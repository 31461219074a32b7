/-
Lists that hold nothing twice.

Where keys are there once, an element is found under its key (`find?_of_nodup_map`)
and nothing else is (`find?_key_eq_some_iff`); elements sorted by keys that are there
once are all of these keys, each once (`flatMap_filter_perm`). `List.eraseDups` leaves
the first occurrence of each element; here it is told for a list that grows at its end.
-/
import Mathlib.Data.List.Induction
import Mathlib.Data.List.Nodup

namespace Coupling

theorem find?_of_nodup_map {α κ : Type} [BEq κ] [LawfulBEq κ] {key : α → κ} {xs : List α}
    (hnodup : (xs.map key).Nodup) {x : α} (hx : x ∈ xs) : xs.find? (key · == key x) = some x := by
  cases hfound : xs.find? (key · == key x) with
  | none => exact absurd (List.find?_eq_none.1 hfound x hx) (by simp)
  | some y =>
    have hsame : key y = key x := by simpa using List.find?_some hfound
    rw [List.inj_on_of_nodup_map hnodup (List.mem_of_find?_eq_some hfound) hx hsame]

theorem find?_key_eq_some_iff {α κ : Type} [BEq κ] [LawfulBEq κ] {key : α → κ} {xs : List α}
    (hnodup : (xs.map key).Nodup) {k : κ} {x : α} : xs.find? (key · == k) = some x ↔ x ∈ xs ∧ key x = k := by
  constructor
  · intro hfound
    exact ⟨List.mem_of_find?_eq_some hfound, by simpa using List.find?_some hfound⟩
  · rintro ⟨hx, rfl⟩
    exact find?_of_nodup_map hnodup hx

/-- Sorted by their keys, among distinct ones, elements are those with these keys. -/
theorem flatMap_filter_perm {α κ : Type} [BEq κ] [LawfulBEq κ] (xs : List α) (key : α → κ) (q : α → Bool)
    {ks : List κ} (hks : ks.Nodup) :
    (ks.flatMap fun k => (xs.filter (key · == k)).filter q).Perm
      (xs.filter fun x => ks.contains (key x) && q x) := by
  induction ks with
  | nil => simp
  | cons k ks ih =>
    obtain ⟨hk, hks⟩ := List.nodup_cons.1 hks
    have hsplit := List.filter_append_perm (key · == k) (xs.filter fun x => (k :: ks).contains (key x) && q x)
    rw [List.filter_filter, List.filter_filter] at hsplit
    have hfirst : (xs.filter fun x => (key x == k) && ((k :: ks).contains (key x) && q x)) =
        (xs.filter (key · == k)).filter q := by
      rw [List.filter_filter]
      refine List.filter_congr fun x _ => ?_
      cases hx : key x == k with
      | true => simp [beq_iff_eq.1 hx]
      | false => simp
    have hrest : (xs.filter fun x => !(key x == k) && ((k :: ks).contains (key x) && q x)) =
        xs.filter fun x => ks.contains (key x) && q x := by
      refine List.filter_congr fun x _ => ?_
      cases hx : key x == k with
      | true => simp [beq_iff_eq.1 hx, hk]
      | false => simp only [List.contains_cons, hx, Bool.false_or, Bool.not_false, Bool.true_and]
    rw [hfirst, hrest] at hsplit
    rw [List.flatMap_cons]
    exact ((ih hks).append_left _).trans hsplit

section FirstOccurrences

variable {α : Type} [BEq α] [LawfulBEq α]

theorem eraseDups_concat (xs : List α) (x : α) :
    (xs ++ [x]).eraseDups = if x ∈ xs then xs.eraseDups else xs.eraseDups ++ [x] := by
  rw [List.eraseDups_append]
  by_cases hx : x ∈ xs
  · simp [List.removeAll, hx]
  · simp [List.removeAll, hx, List.eraseDups_cons]

theorem nodup_eraseDups (xs : List α) : xs.eraseDups.Nodup := by
  induction xs using List.reverseRecOn with
  | nil => simp
  | append_singleton xs x ih =>
    rw [eraseDups_concat]
    split
    · exact ih
    · rename_i hx
      refine List.nodup_append.2 ⟨ih, List.nodup_singleton x, fun y hy z hz heq => hx ?_⟩
      rw [← List.mem_singleton.1 hz, ← heq]
      exact List.mem_eraseDups.1 hy

theorem eraseDups_of_nodup {xs : List α} (h : xs.Nodup) : xs.eraseDups = xs := by
  induction xs using List.reverseRecOn with
  | nil => rfl
  | append_singleton xs x ih =>
    obtain ⟨hxs, -, happart⟩ := List.nodup_append.1 h
    have hx : x ∉ xs := fun hmem => happart x hmem x (by simp) rfl
    rw [eraseDups_concat, if_neg hx, ih hxs]

end FirstOccurrences

end Coupling
