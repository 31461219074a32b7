/-
Cutting a text at a character.

`cutFirst` and `cutLast` divide a list of characters at one occurrence of a
separator, which belongs to neither part; `splitOn` divides it at all of them.
-/

namespace Coupling.Text

/-- The parts before and after the first `c`. -/
def cutFirst (c : Char) : List Char → Option (List Char × List Char)
  | [] => none
  | d :: ds => if d = c then some ([], ds) else (cutFirst c ds).map fun (b, a) => (d :: b, a)

/-- The parts before and after the last `c`. -/
def cutLast (c : Char) : List Char → Option (List Char × List Char)
  | [] => none
  | d :: ds =>
    match cutLast c ds with
    | some (b, a) => some (d :: b, a)
    | none => if d = c then some ([], ds) else none

/-- The pieces between the occurrences of `c`; there is always at least one. -/
def splitOn (c : Char) : List Char → List (List Char)
  | [] => [[]]
  | d :: ds =>
    if d = c then [] :: splitOn c ds
    else
      match splitOn c ds with
      | [] => [[d]]
      | p :: ps => (d :: p) :: ps

/-- What follows `p` in a text that starts with it. -/
def after? (p s : List Char) : Option (List Char) :=
  match p, s with
  | [], s => some s
  | _ :: _, [] => none
  | c :: p, d :: s => if c = d then after? p s else none

theorem cutLast_eq_append {c : Char} {s b a : List Char} (h : cutLast c s = some (b, a)) :
    s = b ++ c :: a := by
  induction s generalizing b a with
  | nil => simp [cutLast] at h
  | cons d ds ih =>
    rw [cutLast] at h
    split at h
    · rename_i b' a' hc
      simp only [Option.some.injEq, Prod.mk.injEq] at h
      obtain ⟨rfl, rfl⟩ := h
      simp [ih hc]
    · split at h <;> simp_all

theorem after?_eq_some_iff {p s r : List Char} : after? p s = some r ↔ s = p ++ r := by
  induction p generalizing s with
  | nil => simp [after?, eq_comm]
  | cons c p ih =>
    cases s with
    | nil => simp [after?]
    | cons d s =>
      rw [after?]
      by_cases h : c = d
      · simp [h, ih]
      · simp [h, eq_comm]

end Coupling.Text
