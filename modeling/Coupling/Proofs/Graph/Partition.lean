/-
Names by key.

`partitions` has a partition for each key that a name has, with all names of the
key in their order, and the partitions come in the order in which the keys are
first met (`partitioned_partitions`).
-/
import Coupling.Graph.Contraction
import Mathlib.Data.List.Induction
import Mathlib.Data.List.Nodup

namespace Coupling.Graph

variable {keyOf : String → String} {names : List String} {ps : List Partition}

theorem partitions_concat (keyOf : String → String) (names : List String) (name : String) :
    partitions keyOf (names ++ [name]) = addMember (keyOf name) name (partitions keyOf names) := by
  simp [partitions]

/-- Partitions of names: what is in them, whose they are, and how they come. -/
structure Partitioned (keyOf : String → String) (names : List String) (ps : List Partition) : Prop where
  members : ∀ p ∈ ps, p.members = names.filter (keyOf · == p.key)
  keys : ∀ k, k ∈ ps.map (·.key) ↔ k ∈ names.map keyOf
  order : (ps.map (·.key)).Pairwise fun a b => (names.map keyOf).idxOf a < (names.map keyOf).idxOf b

theorem Partitioned.nodup_keys (h : Partitioned keyOf names ps) : (ps.map (·.key)).Nodup :=
  h.order.imp fun hlt heq => by
    rw [heq] at hlt
    exact Nat.lt_irrefl _ hlt

theorem keys_addMember (key name : String) (ps : List Partition) :
    (addMember key name ps).map (·.key) =
      if key ∈ ps.map (·.key) then ps.map (·.key) else ps.map (·.key) ++ [key] := by
  induction ps with
  | nil => rfl
  | cons p ps ih =>
    unfold addMember
    by_cases hkey : p.key = key
    · simp [hkey]
    · have hkey' : ¬ key = p.key := fun h => hkey h.symm
      simp only [if_neg hkey, List.map_cons, ih, List.mem_cons, hkey', false_or]
      split <;> simp

/-- A name goes where the names of its key are, or stands alone if there are none. -/
theorem members_addMember {name : String} (hmembers : ∀ p ∈ ps, p.members = names.filter (keyOf · == p.key))
    (hnodup : (ps.map (·.key)).Nodup)
    (hnew : keyOf name ∉ ps.map (·.key) → names.filter (keyOf · == keyOf name) = []) :
    ∀ p ∈ addMember (keyOf name) name ps, p.members = (names ++ [name]).filter (keyOf · == p.key) := by
  induction ps with
  | nil =>
    intro p hp
    obtain rfl := List.mem_singleton.1 hp
    simp [List.filter_append, hnew]
  | cons q ps ih =>
    simp only [List.map_cons, List.nodup_cons, List.mem_map, not_exists, not_and] at hnodup
    -- the partitions of other keys stay as they are
    have hother : ∀ p ∈ q :: ps, p.key ≠ keyOf name → p.members = (names ++ [name]).filter (keyOf · == p.key) := by
      intro p hp hne
      have hne' : ¬ keyOf name = p.key := fun h => hne h.symm
      simp [List.filter_append, hmembers p hp, hne']
    intro p hp
    unfold addMember at hp
    by_cases hkey : q.key = keyOf name
    · rw [if_pos hkey] at hp
      rcases List.mem_cons.1 hp with rfl | hp
      · have hq := hmembers q (by simp)
        simp [List.filter_append, hq, hkey]
      · exact hother p (by simp [hp]) fun h => hnodup.1 p hp (h.trans hkey.symm)
    · rw [if_neg hkey] at hp
      rcases List.mem_cons.1 hp with rfl | hp
      · exact hother p (by simp) hkey
      · refine ih (fun p hp => hmembers p (by simp [hp])) hnodup.2 (fun hps => hnew ?_) p hp
        rw [List.map_cons, List.mem_cons, not_or]
        exact ⟨fun h => hkey h.symm, hps⟩

/-- One more name keeps names partitioned. -/
theorem Partitioned.addMember (h : Partitioned keyOf names ps) (name : String) :
    Partitioned keyOf (names ++ [name]) (addMember (keyOf name) name ps) := by
  have hstays : ∀ k ∈ ps.map (·.key), ((names ++ [name]).map keyOf).idxOf k = (names.map keyOf).idxOf k := by
    intro k hk
    rw [List.map_append]
    exact List.idxOf_append_of_mem ((h.keys k).1 hk)
  have horder : (ps.map (·.key)).Pairwise fun a b =>
      ((names ++ [name]).map keyOf).idxOf a < ((names ++ [name]).map keyOf).idxOf b := by
    refine h.order.imp_of_mem fun ha hb hlt => ?_
    rw [hstays _ ha, hstays _ hb]
    exact hlt
  refine ⟨members_addMember h.members h.nodup_keys fun hnew => ?_, fun k => ?_, ?_⟩
  · rw [List.filter_eq_nil_iff]
    intro n hn heq
    rw [beq_iff_eq] at heq
    exact hnew ((h.keys _).2 (List.mem_map.2 ⟨n, hn, heq⟩))
  · rw [keys_addMember, List.map_append, List.mem_append, ← h.keys k]
    split
    · rename_i hmem
      constructor
      · exact .inl
      · rintro (hk | hk)
        · exact hk
        · rw [List.mem_singleton.1 hk]
          exact hmem
    · rw [List.mem_append]
      rfl
  · rw [keys_addMember]
    split
    · exact horder
    · rename_i hnew
      refine List.pairwise_append.2 ⟨horder, List.pairwise_singleton _ _, fun a ha b hb => ?_⟩
      obtain rfl := List.mem_singleton.1 hb
      rw [hstays a ha, List.map_append, List.idxOf_append_of_notMem fun hmem => hnew ((h.keys _).2 hmem)]
      have hlt := List.idxOf_lt_length_iff.2 ((h.keys a).1 ha)
      omega

/-- Names are partitioned by key, in the order in which the keys are first met. -/
theorem partitioned_partitions (keyOf : String → String) (names : List String) :
    Partitioned keyOf names (partitions keyOf names) := by
  induction names using List.reverseRecOn with
  | nil => exact ⟨by simp [partitions], by simp [partitions], by simp [partitions]⟩
  | append_singleton names name ih =>
    rw [partitions_concat]
    exact ih.addMember name

end Coupling.Graph
