/-
A search, level by level.

A `Stage` is what a search holds between two levels, and `Stage.next` looks into
one level. There is no count of levels here: a stage whose level is empty is its
own next one. A search is the stage it reaches in as many steps as there are
references to look into (`usages_value`). What holds at the start and is kept when
a reference is looked into holds at every stage (`expandAll_induct`,
`Stage.after_induct`).
-/
import Coupling.Proofs.Usage.Meaning
import Mathlib.Logic.Function.Iterate

namespace Coupling

namespace Usage

open Resolving

variable {g : Registry} {o : Options} {seeds : List TypeRef}

/-! ## References of one level -/

/-- What was found together with relations, of which those with a new key count. -/
def Progress.add (p : Progress) (rs : List Relation) : Progress :=
  let (new, seen) := Search.unmet Relation.key p.seen rs
  { p with relations := p.relations ++ new, seen }

/-- What holds of what was found, of the successors and of what is kept, if looking into each reference of a level
keeps it. -/
theorem expandAll_induct {P : Progress → RefSet → Resolver → Prop} {rs : List TypeRef}
    (hstep : ∀ r ∈ rs, ∀ p successors s, P p successors s →
      P (p.add ((expand g o r).result s).relations) (addAll successors ((expand g o r).result s).successors)
        ((expand g o r).after s))
    {p : Progress} {successors : RefSet} {s : Resolver} (h : P p successors s) :
    P ((expandAll g o rs p successors).result s).1 ((expandAll g o rs p successors).result s).2
      ((expandAll g o rs p successors).after s) := by
  induction rs generalizing p successors s with
  | nil => exact h
  | cons r rs ih => exact ih (fun x hx => hstep x (by simp [hx])) (hstep r (by simp) p successors s h)

/-! ## Stages -/

/-- What a search holds between two levels: the level to look into, what was found, and what the resolver keeps. -/
structure Stage where
  frontier : RefSet
  progress : Progress
  memory : Resolver

namespace Stage

/-- Where a search starts. -/
def start (g : Registry) (seeds : List TypeRef) : Stage := ⟨seedSet seeds, {}, g.resolver⟩

/-- Looking into the references of a level. -/
def level (g : Registry) (o : Options) (x : Stage) : Resolving (Progress × RefSet) :=
  expandAll g o x.frontier.values x.progress ∅

/-- What was found once a level was looked into. -/
def looked (g : Registry) (o : Options) (x : Stage) : Progress :=
  let found := ((x.level g o).result x.memory).1
  { found with processed := x.frontier.keys ++ found.processed }

/-- Looks into a level. A search that has an empty level before it rests. -/
def next (g : Registry) (o : Options) (x : Stage) : Stage :=
  if x.frontier.isEmpty then x
  else
    ⟨nextLevel o (x.looked g o) ((x.level g o).result x.memory).2, x.looked g o, (x.level g o).after x.memory⟩

/-- The stage after some levels. -/
def after (g : Registry) (o : Options) (seeds : List TypeRef) (levels : Nat) : Stage :=
  (next g o)^[levels] (start g seeds)

variable {x : Stage}

theorem next_of_isEmpty (h : x.frontier.isEmpty = true) : x.next g o = x := if_pos h

theorem next_of_not_isEmpty (h : x.frontier.isEmpty = false) :
    x.next g o =
      ⟨nextLevel o (x.looked g o) ((x.level g o).result x.memory).2, x.looked g o, (x.level g o).after x.memory⟩ :=
  if_neg (by simp [h])

theorem after_succ (g : Registry) (o : Options) (seeds : List TypeRef) (levels : Nat) :
    after g o seeds (levels + 1) = (after g o seeds levels).next g o :=
  Function.iterate_succ_apply' _ _ _

/-- What holds at the start and is kept by looking into a level holds at every stage. -/
theorem after_induct {P : Stage → Prop} (hstart : P (start g seeds)) (hnext : ∀ x, P x → P (x.next g o))
    (levels : Nat) : P (after g o seeds levels) := by
  induction levels with
  | zero => exact hstart
  | succ levels ih => exact after_succ g o seeds levels ▸ hnext _ ih

/-- Once a level is empty, nothing changes any more. -/
theorem after_of_le {n k : Nat} (hempty : (after g o seeds n).frontier.isEmpty = true) (hle : n ≤ k) :
    after g o seeds k = after g o seeds n := by
  obtain ⟨more, rfl⟩ := Nat.exists_eq_add_of_le hle
  rw [after, Nat.add_comm, Function.iterate_add_apply]
  exact Function.iterate_fixed (next_of_isEmpty hempty) more

end Stage

theorem run_eq (g : Registry) (o : Options) (levels level : Nat) (x : Stage) :
    (run g o levels level x.frontier x.progress).result x.memory = ((Stage.next g o)^[levels] x).progress ∧
      (run g o levels level x.frontier x.progress).after x.memory = ((Stage.next g o)^[levels] x).memory := by
  induction levels generalizing level x with
  | zero => exact ⟨rfl, rfl⟩
  | succ levels ih =>
    rw [Function.iterate_succ_apply]
    cases hempty : x.frontier.isEmpty with
    | true =>
      rw [Stage.next_of_isEmpty hempty, Function.iterate_fixed (Stage.next_of_isEmpty hempty)]
      simp only [run, hempty, if_true]
      exact ⟨rfl, rfl⟩
    | false =>
      have hnext := ih (level + 1) (x.next g o)
      simp only [run, hempty, Bool.false_eq_true, if_false]
      rw [Stage.next_of_not_isEmpty hempty] at hnext ⊢
      exact hnext

end Usage

open Usage

/-- **A search is the stage it reaches** in as many levels as there are references to look into. -/
theorem Registry.usages_value (g : Registry) (o : Options) (seeds : List TypeRef) :
    (g.usages o seeds).value =
      ((Stage.after g o seeds (g.outlook seeds).length).progress.relations,
        { g with resolver := (Stage.after g o seeds (g.outlook seeds).length).memory }) := by
  obtain ⟨hresult, hafter⟩ := run_eq g o (g.outlook seeds).length 0 (Stage.start g seeds)
  refine Prod.ext (congrArg Progress.relations hresult) ?_
  exact congrArg (fun s => { g with resolver := s }) hafter

end Coupling
