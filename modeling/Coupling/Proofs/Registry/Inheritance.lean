/-
What derives from given types.

The types that are filed under keys are as many as `entryCount` says, so searching
from key to key through a file meets no more types than it may take steps
(`TypeFile.search_ends`). The search for what derives from bases therefore comes to
its end, also where bases are declared in a circle. It lists the distinct bases
first and then all that derives from them, the fewer steps the earlier
(`inheritedFrom_exact`).
-/
import Coupling.Proofs.Registry.Contents
import Coupling.Proofs.Search.Levels

namespace Coupling

/-! ## Searching through a file -/

namespace TypeFile

/-- All types that are filed, under whatever key. -/
def filed (f : TypeFile) : List TypeDef := f.values.flatMap (·.values)

theorem length_filed (f : TypeFile) : f.filed.length = Registry.entryCount f := by
  have hfold : ∀ (sets : List TypeSet) (n : Nat),
      sets.foldl (fun n s => n + s.size) n = n + (sets.flatMap (·.values)).length := by
    intro sets
    induction sets with
    | nil => simp
    | cons s sets ih =>
      intro n
      rw [List.foldl_cons, ih, List.flatMap_cons, List.length_append, ← Nat.add_assoc]
      simp [SortedMap.size, SortedMap.values]
  rw [filed, Registry.entryCount, hfold, Nat.zero_add]

theorem mem_filed_of_mem_under {f : TypeFile} {k : TypeKey} {d : TypeDef} (hd : d ∈ (f.under k).values) :
    d ∈ f.filed := by
  unfold under at hd
  cases hset : f.get? k with
  | none =>
    rw [hset] at hd
    exact absurd hd List.not_mem_nil
  | some s =>
    rw [hset] at hd
    exact List.mem_flatMap.2 ⟨s, List.mem_map_of_mem (SortedMap.mem_entries_of_get? hset), hd⟩

/-- A search through types that are filed comes to its end: it meets its starts and what is filed, at most. -/
theorem search_ends (f : TypeFile) {next : TypeDef → List TypeDef} (hnext : ∀ d, ∀ e ∈ next d, e ∈ f.filed)
    (starts : List TypeDef) :
    Search.Ends TypeDef.key next starts
      (Search.breadthFirst TypeDef.key next (starts.length + Registry.entryCount f) starts) := by
  refine Search.breadthFirst_ends TypeDef.key (U := starts.map TypeDef.key ++ f.filed.map TypeDef.key) ?_ ?_ ?_
  · exact fun d hd => List.mem_append_left _ (List.mem_map_of_mem hd)
  · exact fun d e he => List.mem_append_right _ (List.mem_map_of_mem (hnext d e he))
  · refine Nat.le_of_eq ?_
    rw [List.length_append, List.length_map, List.length_map, length_filed]

end TypeFile

/-! ## Derivation -/

namespace Registry

open Search (StepsFrom)

theorem inheritedFrom_ends (g : Registry) (bases : List TypeDef) :
    Search.Ends TypeDef.key (fun d => g.derivedFrom d.key) bases (g.inheritedFrom bases) := by
  refine TypeFile.search_ends g.index.inheritance (fun d e he => ?_) bases
  rw [derivedFrom_eq_under] at he
  exact TypeFile.mem_filed_of_mem_under he

/-- The keys of what derives from bases are the least set that has the bases and all that derives from what it has. -/
theorem isLeast_keys_inheritedFrom (g : Registry) (bases : List TypeDef) :
    IsLeast {ks : Set TypeKey | (∀ b ∈ bases, b.key ∈ ks) ∧ ∀ k ∈ ks, ∀ d ∈ g.derivedFrom k, d.key ∈ ks}
      {k | k ∈ (g.inheritedFrom bases).map TypeDef.key} := by
  have hends := g.inheritedFrom_ends bases
  refine ⟨⟨hends.starts_mem, fun k hk d hd => ?_⟩, fun ks hks k hk => ?_⟩
  · obtain ⟨b, hb, rfl⟩ := List.mem_map.1 hk
    exact hends.closed b hb d hd
  · obtain ⟨d, hd, rfl⟩ := List.mem_map.1 hk
    exact hends.sound (P := fun d => d.key ∈ ks) (fun b d hb hd => hks.2 b.key hb d hd) hks.1 d hd

/-- **What derives from bases is listed exactly, nearest first.** For any registry and any bases, also if types are
declared to derive from one another in a circle:
- no key is listed twice, and the keys are the least set that has the bases and all that derives from what it has;
- what is listed is a base or filed under the key of something listed;
- the bases are listed first, in their order, of each key the first;
- the number of steps in which a type derives from the bases does not decrease along the list;
- the search comes to its end. -/
theorem inheritedFrom_exact (g : Registry) (bases : List TypeDef) :
    (((g.inheritedFrom bases).map TypeDef.key).Nodup ∧
      IsLeast {ks : Set TypeKey | (∀ b ∈ bases, b.key ∈ ks) ∧ ∀ k ∈ ks, ∀ d ∈ g.derivedFrom k, d.key ∈ ks}
        {k | k ∈ (g.inheritedFrom bases).map TypeDef.key}) ∧
      (∀ d ∈ g.inheritedFrom bases, d ∈ bases ∨ ∃ b ∈ g.inheritedFrom bases, d ∈ g.derivedFrom b.key) ∧
      bases.eraseDupsBy (fun b c => b.key == c.key) <+: g.inheritedFrom bases ∧
      (∃ steps : List Nat,
        List.Forall₂ (fun d n => IsLeast {m | StepsFrom TypeDef.key g.derivedFrom bases m d.key} n)
          (g.inheritedFrom bases) steps ∧ steps.Pairwise (· ≤ ·)) ∧
      Search.Ends TypeDef.key (fun d => g.derivedFrom d.key) bases (g.inheritedFrom bases) := by
  have hends := g.inheritedFrom_ends bases
  exact ⟨⟨hends.nodup, g.isLeast_keys_inheritedFrom bases⟩, hends.origin, hends.starts_first, hends.exists_steps, hends⟩

end Registry

end Coupling
