/-
Breadth-first search.

Elements are told apart by a key. Each is listed once, the starts first, and
after it those of its neighbours that were not met before.
-/

namespace Coupling.Search

variable {α κ : Type} [BEq κ] (key : α → κ)

/-- The elements that were not met before, and all keys met then. -/
def unmet (met : List κ) : List α → List α × List κ
  | [] => ([], met)
  | x :: xs =>
    if met.contains (key x) then unmet met xs
    else
      let (new, met') := unmet (key x :: met) xs
      (x :: new, met')

/-- Works off a queue, `steps` elements at most. -/
def run (next : α → List α) : (steps : Nat) → (queue : List α) → (met : List κ) → List α
  | steps + 1, x :: queue, met =>
    let (new, met') := unmet key met (next x)
    x :: run next steps (queue ++ new) met'
  | _, _, _ => []

/-- All that is reached from the starts, nearest first. `bound` is at least their number. -/
def breadthFirst (next : α → List α) (bound : Nat) (starts : List α) : List α :=
  let (queue, met) := unmet key [] starts
  run key next bound queue met

end Coupling.Search
