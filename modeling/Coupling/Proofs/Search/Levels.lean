/-
Breadth-first search, level by level.

`StepsFrom` says that a key is some number of steps from the starts of a search.
A `level` is what is met first after that many steps: its keys are those that
are no fewer steps away (`isLeast_level`). A queue that holds a level is worked
off by listing the level and going on with the next (`WorksOff.front`), so a
search lists the levels one after the other, the farther the later
(`Ends.exists_steps`).
-/
import Coupling.Proofs.Search
import Mathlib.Data.List.Forall2
import Mathlib.Order.Bounds.Defs

namespace Coupling.Search

variable {α κ : Type} [BEq κ] {key : α → κ} {starts : List α}

/-- What is left of the elements of each key is the first. -/
theorem eraseDupsBy_loop_eq (xs kept : List α) : List.eraseDupsBy.loop (fun x y => key x == key y) xs kept =
    kept.reverse ++ (unmet key (kept.map key) xs).1 := by
  induction xs generalizing kept with
  | nil => simp [List.eraseDupsBy.loop, unmet]
  | cons x xs ih =>
    have hmet : (kept.map key).contains (key x) = kept.any fun y => key x == key y := by
      rw [List.contains_eq_any_beq, List.any_map]
      rfl
    simp only [List.eraseDupsBy.loop, unmet, hmet]
    cases kept.any fun y => key x == key y with
    | true => simp [ih]
    | false => simp [ih]

/-! ## Levels -/

/-- A key that some number of steps lead to from the starts, where an element has the neighbours of its key. -/
inductive StepsFrom (key : α → κ) (nextOf : κ → List α) (starts : List α) : Nat → κ → Prop
  | start {x : α} (hx : x ∈ starts) : StepsFrom key nextOf starts 0 (key x)
  | step {n : Nat} {k : κ} {y : α} (h : StepsFrom key nextOf starts n k) (hy : y ∈ nextOf k) :
      StepsFrom key nextOf starts (n + 1) (key y)

/-- What a search meets first after some number of steps, and all keys met then. -/
def level (key : α → κ) (nextOf : κ → List α) (starts : List α) : Nat → List α × List κ
  | 0 => unmet key [] starts
  | n + 1 =>
    unmet key (level key nextOf starts n).2 ((level key nextOf starts n).1.flatMap fun x => nextOf (key x))

variable {nextOf : κ → List α} {n : Nat}

theorem stepsFrom_of_mem_level {x : α} (hx : x ∈ (level key nextOf starts n).1) :
    StepsFrom key nextOf starts n (key x) := by
  induction n generalizing x with
  | zero => exact .start (mem_of_mem_unmet hx)
  | succ n ih =>
    obtain ⟨w, hw, hx⟩ := List.mem_flatMap.1 (mem_of_mem_unmet hx)
    exact .step (ih hw) hx

variable [LawfulBEq κ]

theorem nodup_level (n : Nat) : (level key nextOf starts n).2.Nodup := by
  induction n with
  | zero => exact nodup_unmet_snd List.nodup_nil starts
  | succ n ih => exact nodup_unmet_snd ih _

theorem level_subset_succ (n : Nat) : (level key nextOf starts n).2 ⊆ (level key nextOf starts (n + 1)).2 :=
  fun _ hk => mem_unmet_snd.2 (.inl hk)

/-- The keys of neighbours of all that was met are met one step later. -/
theorem next_mem_level {k : κ} (hk : k ∈ (level key nextOf starts n).2) {y : α} (hy : y ∈ nextOf k) :
    key y ∈ (level key nextOf starts (n + 1)).2 := by
  -- what is in the level itself has its neighbours looked at now, what was met before had them then
  have hlevel : ∀ n, k ∈ (level key nextOf starts n).1.map key → key y ∈ (level key nextOf starts (n + 1)).2 := by
    intro n hk
    obtain ⟨x, hx, rfl⟩ := List.mem_map.1 hk
    exact mem_unmet_snd.2 (.inr ⟨y, List.mem_flatMap.2 ⟨x, hx, hy⟩, rfl⟩)
  induction n with
  | zero =>
    rw [level, (unmet_nil_perm starts).mem_iff] at hk
    exact hlevel 0 hk
  | succ n ih =>
    rw [level, (unmet_snd_perm _ _).mem_iff, List.mem_append] at hk
    rcases hk with hk | hk
    · exact hlevel (n + 1) hk
    · exact level_subset_succ (n + 1) (ih hk)

theorem mem_level_of_stepsFrom {k : κ} (h : StepsFrom key nextOf starts n k) :
    k ∈ (level key nextOf starts n).2 := by
  induction h with
  | start hx => exact mem_unmet_snd.2 (.inr ⟨_, hx, rfl⟩)
  | step _ hy ih => exact next_mem_level ih hy

theorem level_subset {m n : Nat} (hle : m ≤ n) :
    (level key nextOf starts m).2 ⊆ (level key nextOf starts n).2 := by
  induction hle with
  | refl => exact List.Subset.refl _
  | step _ ih => exact fun _ hk => level_subset_succ _ (ih hk)

/-- **What is in a level is as many steps away, and no fewer.** -/
theorem isLeast_level {x : α} (hx : x ∈ (level key nextOf starts n).1) :
    IsLeast {m | StepsFrom key nextOf starts m (key x)} n := by
  refine ⟨stepsFrom_of_mem_level hx, fun m hm => ?_⟩
  have hmet := mem_level_of_stepsFrom hm
  cases n with
  | zero => exact Nat.zero_le m
  | succ n =>
    by_contra hlt
    have hearlier := level_subset (Nat.le_of_lt_succ (Nat.lt_of_not_le hlt)) hmet
    have hnodup : (level key nextOf starts (n + 1)).2.Nodup := nodup_level (n + 1)
    rw [level, (unmet_snd_perm _ _).nodup_iff, List.nodup_append] at hnodup
    exact hnodup.2.2 _ (List.mem_map_of_mem hx) _ hearlier rfl

/-! ## Searches -/

omit [LawfulBEq κ] in
/-- The front of a queue is listed before what it leads to is looked at. -/
theorem WorksOff.front {next : α → List α} {front queue found : List α} {met : List κ}
    (h : WorksOff key next (front ++ queue) met found) :
    ∃ rest, found = front ++ rest ∧
      WorksOff key next (queue ++ (unmet key met (front.flatMap next)).1) (unmet key met (front.flatMap next)).2 rest := by
  induction front generalizing queue found met with
  | nil => exact ⟨found, rfl, by simpa [unmet] using h⟩
  | cons x front ih =>
    rw [List.cons_append] at h
    cases h with
    | step h =>
      rw [List.append_assoc] at h
      obtain ⟨rest, rfl, hrest⟩ := ih h
      refine ⟨rest, rfl, ?_⟩
      rw [List.flatMap_cons, unmet_append, ← List.append_assoc]
      exact hrest

/-- From a level on, what is listed is no fewer steps away, the farther the later. -/
theorem exists_steps_from_level (n : Nat) {found : List α}
    (h : WorksOff key (fun x => nextOf (key x)) (level key nextOf starts n).1 (level key nextOf starts n).2 found) :
    ∃ steps : List Nat, List.Forall₂ (fun x m => IsLeast {m | StepsFrom key nextOf starts m (key x)} m) found steps ∧
      (∀ m ∈ steps, n ≤ m) ∧ steps.Pairwise (· ≤ ·) := by
  -- by induction on how much is listed: an empty level ends the search, any other is listed first
  induction hlength : found.length using Nat.strongRecOn generalizing n found with
  | ind length ih =>
    by_cases hempty : (level key nextOf starts n).1 = []
    · rw [hempty] at h
      cases h
      exact ⟨[], .nil, by simp, .nil⟩
    · rw [← List.append_nil (level key nextOf starts n).1] at h
      obtain ⟨rest, rfl, hrest⟩ := h.front
      rw [List.nil_append] at hrest
      rw [List.length_append] at hlength
      have hshorter : rest.length < length := by
        have := List.length_pos_iff.2 hempty
        omega
      obtain ⟨steps, hsteps, hfrom, hsorted⟩ := ih rest.length hshorter (n + 1) hrest rfl
      have hlevel : ∀ m ∈ (level key nextOf starts n).1.map fun _ => n, m = n := by
        intro m hm
        obtain ⟨-, -, rfl⟩ := List.mem_map.1 hm
        rfl
      refine ⟨((level key nextOf starts n).1.map fun _ => n) ++ steps, ?_, ?_, ?_⟩
      · exact List.rel_append (List.forall₂_map_right_iff.2 (List.forall₂_same.2 fun x hx => isLeast_level hx)) hsteps
      · intro m hm
        rcases List.mem_append.1 hm with hm | hm
        · exact Nat.le_of_eq (hlevel m hm).symm
        · exact Nat.le_of_succ_le (hfrom m hm)
      · refine List.pairwise_append.2 ⟨?_, hsorted, fun a ha b hb => ?_⟩
        · exact List.pairwise_map.2 (List.pairwise_of_forall fun _ _ => Nat.le_refl n)
        · rw [hlevel a ha]
          exact Nat.le_of_succ_le (hfrom b hb)

/-- **A search lists what it finds by the number of steps**, the nearest first. -/
theorem Ends.exists_steps {found : List α} (h : Ends key (fun x => nextOf (key x)) starts found) :
    ∃ steps : List Nat, List.Forall₂ (fun x m => IsLeast {m | StepsFrom key nextOf starts m (key x)} m) found steps ∧
      steps.Pairwise (· ≤ ·) := by
  obtain ⟨steps, hsteps, -, hsorted⟩ := exists_steps_from_level 0 h
  exact ⟨steps, hsteps, hsorted⟩

/-- **A search lists the starts first**, of each key the first. -/
theorem Ends.starts_first {next : α → List α} {found : List α} (h : Ends key next starts found) :
    starts.eraseDupsBy (fun x y => key x == key y) <+: found := by
  obtain ⟨later, rfl, -⟩ := WorksOff.exists_later h
  refine ⟨later, congrArg (· ++ later) ?_⟩
  exact eraseDupsBy_loop_eq starts []

end Coupling.Search
