/-
Relations put together by their ends.

A relation links the full names of its source and its target, if it has one.
`pairs` lists the pairs of names that are linked, each where it occurs first.
`compact` has a group for each of them, which holds the relations between the two
in their order (`compact_eq`). So each relation with a target is in one group
(`relations_compact_perm`).

`Divides` says which groups these are without saying how they are found. There is
one way to divide relations (`Divides.unique`), and dividing what was divided, group
after group, changes nothing (`compact_stable`).
-/
import Coupling.Proofs.Distinct
import Coupling.Relation
import Mathlib.Algebra.Ring.Nat

namespace Coupling

variable {rs : List Relation} {r : Relation} {ends : String × String}

/-! ## What relations link -/

/-- A relation has a target, and its source and its target have the given full names. -/
def Relation.Links (r : Relation) (ends : String × String) : Prop :=
  ∃ t, r.target = some t ∧ r.source.fullName = ends.1 ∧ t.fullName = ends.2

namespace Relation

theorem links_iff : r.Links ends ↔ (r.target.map fun t => (r.source.fullName, t.fullName)) = some ends := by
  rw [Option.map_eq_some_iff]
  refine exists_congr fun t => and_congr_right fun _ => ?_
  rw [Prod.ext_iff]

instance : Decidable (r.Links ends) := decidable_of_iff' _ links_iff

theorem ends?_eq_some_iff : r.ends? = some ends ↔ r.Links ends := links_iff.symm

theorem ends?_eq_none_iff : r.ends? = none ↔ r.target = none := Option.map_eq_none_iff

theorem Links.unique {e : String × String} (h : r.Links ends) (h' : r.Links e) : ends = e :=
  Option.some.inj ((links_iff.1 h).symm.trans (links_iff.1 h'))

theorem not_links_of_none (hr : r.target = none) : ¬ r.Links ends := by
  rintro ⟨t, ht, -⟩
  rw [hr] at ht
  cases ht

theorem isSome_target_iff : r.target.isSome = true ↔ ∃ ends, r.Links ends := by
  rw [Option.isSome_iff_exists]
  exact ⟨fun ⟨t, ht⟩ => ⟨(_, _), t, ht, rfl, rfl⟩, fun ⟨_, t, ht, _⟩ => ⟨t, ht⟩⟩

end Relation

/-- The pairs of source and target that occur, in the order in which they occur first. -/
def pairs (rs : List Relation) : List (String × String) :=
  (rs.filterMap fun r => r.target.map fun t => (r.source.fullName, t.fullName)).eraseDups

/-- The relations between two types. -/
def groupOf (rs : List Relation) (ends : String × String) : RelationGroup :=
  ⟨ends.1, ends.2, rs.filter (·.Links ends)⟩

theorem pairs_eq (rs : List Relation) : pairs rs = (rs.filterMap Relation.ends?).eraseDups := rfl

theorem mem_pairs : ends ∈ pairs rs ↔ ∃ r ∈ rs, r.Links ends := by
  rw [pairs_eq, List.mem_eraseDups, List.mem_filterMap]
  simp only [Relation.ends?_eq_some_iff]

theorem nodup_pairs (rs : List Relation) : (pairs rs).Nodup := nodup_eraseDups _

theorem pairs_concat_of_none (hr : r.target = none) : pairs (rs ++ [r]) = pairs rs := by
  simp [pairs, hr]

theorem pairs_concat_of_links (hr : r.Links ends) :
    pairs (rs ++ [r]) = if ends ∈ pairs rs then pairs rs else pairs rs ++ [ends] := by
  have happend : (rs ++ [r]).filterMap Relation.ends? = rs.filterMap Relation.ends? ++ [ends] := by
    simp [Relation.ends?_eq_some_iff.2 hr]
  simp only [pairs_eq, happend, eraseDups_concat, List.mem_eraseDups]

theorem groupOf_concat_of_not_links (hr : ¬ r.Links ends) : groupOf (rs ++ [r]) ends = groupOf rs ends := by
  simp [groupOf, hr]

theorem groupOf_concat_of_links (hr : r.Links ends) :
    groupOf (rs ++ [r]) ends = { groupOf rs ends with relations := (groupOf rs ends).relations ++ [r] } := by
  simp [groupOf, hr]

/-! ## Groups of all pairs -/

/-- A relation is added to the group of its ends, which comes last if there is none. -/
theorem add_groups (hr : r.Links ends) {es : List (String × String)} (hes : es.Nodup)
    (hnew : ends ∉ es → (groupOf rs ends).relations = []) :
    RelationGroup.add ends r (es.map (groupOf rs)) =
      (if ends ∈ es then es else es ++ [ends]).map (groupOf (rs ++ [r])) := by
  induction es with
  | nil =>
    simp only [List.not_mem_nil, if_false, List.nil_append, List.map_cons, List.map_nil, RelationGroup.add]
    rw [groupOf_concat_of_links hr, hnew List.not_mem_nil]
    rfl
  | cons e es ih =>
    obtain ⟨he, hes⟩ := List.nodup_cons.1 hes
    have hends : (groupOf rs e).ends = e := rfl
    simp only [List.map_cons, RelationGroup.add, hends]
    by_cases heq : e = ends
    · -- no later group has these ends, so none of them changes
      subst heq
      have hothers : es.map (groupOf (rs ++ [r])) = es.map (groupOf rs) :=
        List.map_congr_left fun x hx => groupOf_concat_of_not_links fun hx' => he (hr.unique hx' ▸ hx)
      simp only [if_true, List.mem_cons, true_or, List.map_cons, groupOf_concat_of_links hr, hothers]
    · have hother : groupOf (rs ++ [r]) e = groupOf rs e :=
        groupOf_concat_of_not_links fun he' => heq (he'.unique hr)
      have hmem : ends ∈ e :: es ↔ ends ∈ es := by simp [Ne.symm heq]
      rw [if_neg heq, ih hes fun hn => hnew fun h => hn (hmem.1 h)]
      simp only [hmem]
      split <;> simp [hother]

/-- **A group for each pair that occurs**, of the relations between the two. -/
theorem compact_eq (rs : List Relation) : compact rs = (pairs rs).map (groupOf rs) := by
  induction rs using List.reverseRecOn with
  | nil => rfl
  | append_singleton rs r ih =>
    have hstep : compact (rs ++ [r]) =
        (r.ends?.map fun ends => RelationGroup.add ends r (compact rs)).getD (compact rs) := by
      simp [compact]
    rw [hstep, ih]
    cases hr : r.ends? with
    | none =>
      rw [Relation.ends?_eq_none_iff] at hr
      rw [pairs_concat_of_none hr]
      exact List.map_congr_left fun e _ => (groupOf_concat_of_not_links (Relation.not_links_of_none hr)).symm
    | some ends =>
      rw [Relation.ends?_eq_some_iff] at hr
      rw [pairs_concat_of_links hr]
      refine add_groups hr (nodup_pairs rs) fun hnew => List.filter_eq_nil_iff.2 fun x hx hends => hnew ?_
      exact mem_pairs.2 ⟨x, hx, of_decide_eq_true hends⟩

/-- Every relation with a target is in one group. -/
theorem relations_compact_perm (rs : List Relation) :
    ((compact rs).flatMap (·.relations)).Perm (rs.filter (·.target.isSome)) := by
  have hkeys : ((pairs rs).map some).Nodup := (nodup_pairs rs).map fun _ _ h => Option.some.inj h
  have hperm := flatMap_filter_perm rs Relation.ends? (fun _ => true) hkeys
  rw [compact_eq, List.flatMap_map]
  rw [List.flatMap_map] at hperm
  simp only [List.filter_true, Bool.and_true, beq_eq_decide, Relation.ends?_eq_some_iff] at hperm
  refine hperm.trans (List.Perm.of_eq (List.filter_congr fun x hx => ?_))
  rw [Bool.eq_iff_iff, Relation.isSome_target_iff, List.contains_iff_mem, List.mem_map]
  constructor
  · rintro ⟨ends, -, hends⟩
    exact ⟨ends, Relation.ends?_eq_some_iff.1 hends.symm⟩
  · rintro ⟨ends, hends⟩
    exact ⟨ends, mem_pairs.2 ⟨x, hx, hends⟩, (Relation.ends?_eq_some_iff.2 hends).symm⟩

/-! ## First occurrences -/

/-- Where a pair of source and target occurs first. -/
def firstAt (rs : List Relation) (ends : String × String) : Nat := rs.findIdx (·.Links ends)

theorem firstAt_append_of_mem (rs' : List Relation) (h : ∃ r ∈ rs, r.Links ends) :
    firstAt (rs ++ rs') ends = firstAt rs ends ∧ firstAt rs ends < rs.length := by
  obtain ⟨r, hr, hends⟩ := h
  have hlt : rs.findIdx (·.Links ends) < rs.length := List.findIdx_lt_length_of_exists ⟨r, hr, by simp [hends]⟩
  exact ⟨by rw [firstAt, List.findIdx_append, if_pos hlt, firstAt], hlt⟩

theorem firstAt_append_of_not_mem {rs' : List Relation} (h : ∀ r ∈ rs, ¬ r.Links ends) :
    firstAt (rs ++ rs') ends = firstAt rs' ends + rs.length := by
  have hnone : rs.findIdx (·.Links ends) = rs.length :=
    List.findIdx_eq_length.2 fun r hr => by simp [h r hr]
  rw [firstAt, List.findIdx_append, hnone, if_neg (Nat.lt_irrefl _), firstAt]

/-- Pairs are listed in the order in which they occur first. -/
theorem pairwise_firstAt_pairs (rs : List Relation) :
    (pairs rs).Pairwise fun d e => firstAt rs d < firstAt rs e := by
  induction rs using List.reverseRecOn with
  | nil => exact .nil
  | append_singleton rs r ih =>
    -- what occurred before stays where it was
    have hkept : ∀ e ∈ pairs rs, firstAt (rs ++ [r]) e = firstAt rs e ∧ firstAt rs e < rs.length :=
      fun e he => firstAt_append_of_mem [r] (mem_pairs.1 he)
    have hold : (pairs rs).Pairwise fun d e => firstAt (rs ++ [r]) d < firstAt (rs ++ [r]) e := by
      refine ih.imp_of_mem fun {d e} hd he hlt => ?_
      rwa [(hkept d hd).1, (hkept e he).1]
    cases hr : r.target with
    | none => rwa [pairs_concat_of_none hr]
    | some t =>
      have hlinks : r.Links (r.source.fullName, t.fullName) := ⟨t, hr, rfl, rfl⟩
      rw [pairs_concat_of_links hlinks]
      split
      · exact hold
      · rename_i hnew
        have hlast : rs.length ≤ firstAt (rs ++ [r]) (r.source.fullName, t.fullName) := by
          rw [firstAt_append_of_not_mem fun x hx hends => hnew (mem_pairs.2 ⟨x, hx, hends⟩)]
          exact Nat.le_add_left _ _
        refine List.pairwise_append.2 ⟨hold, List.pairwise_singleton _ _, fun d hd e he => ?_⟩
        rw [List.mem_singleton.1 he, (hkept d hd).1]
        exact Nat.lt_of_lt_of_le (hkept d hd).2 hlast

/-! ## Groups one after the other -/

section Concatenation

variable {gs : List RelationGroup}

/-- Where every group holds relations of its own ends only, these are found among all by their ends. -/
theorem filter_flatMap_relations (hown : ∀ g ∈ gs, ∀ r ∈ g.relations, r.Links g.ends)
    (hnodup : (gs.map (·.ends)).Nodup) {g : RelationGroup} (hg : g ∈ gs) :
    (gs.flatMap (·.relations)).filter (·.Links g.ends) = g.relations := by
  obtain ⟨before, after, rfl⟩ := List.append_of_mem hg
  have hothers : ∀ ks : List RelationGroup, (∀ k ∈ ks, k ∈ before ++ g :: after ∧ k.ends ≠ g.ends) →
      (ks.flatMap (·.relations)).filter (·.Links g.ends) = [] := by
    intro ks hks
    refine List.filter_eq_nil_iff.2 fun r hr hends => ?_
    obtain ⟨k, hk, hr⟩ := List.mem_flatMap.1 hr
    exact (hks k hk).2 ((hown k (hks k hk).1 r hr).unique (of_decide_eq_true hends))
  have hself : g.relations.filter (·.Links g.ends) = g.relations :=
    List.filter_eq_self.2 fun r hr => decide_eq_true (hown g hg r hr)
  rw [List.map_append, List.map_cons, List.nodup_append] at hnodup
  obtain ⟨-, hafter, hapart⟩ := hnodup
  have hbefore : ∀ k ∈ before, k.ends ≠ g.ends := fun k hk =>
    hapart _ (List.mem_map_of_mem hk) _ List.mem_cons_self
  have hafter : ∀ k ∈ after, k.ends ≠ g.ends := fun k hk heq =>
    (List.nodup_cons.1 hafter).1 (heq ▸ List.mem_map_of_mem hk)
  rw [List.flatMap_append, List.flatMap_cons, List.filter_append, List.filter_append,
    hothers before fun k hk => ⟨by simp [hk], hbefore k hk⟩, hothers after fun k hk => ⟨by simp [hk], hafter k hk⟩,
    hself, List.nil_append, List.append_nil]

/-- Then groups come as their ends occur first. -/
theorem pairwise_firstAt_flatMap (hown : ∀ g ∈ gs, ∀ r ∈ g.relations, r.Links g.ends)
    (hnodup : (gs.map (·.ends)).Nodup) (hsome : ∀ g ∈ gs, ∃ r ∈ g.relations, r.Links g.ends) :
    gs.Pairwise fun g h => firstAt (gs.flatMap (·.relations)) g.ends < firstAt (gs.flatMap (·.relations)) h.ends := by
  induction gs with
  | nil => exact .nil
  | cons k ks ih =>
    obtain ⟨hk, hks⟩ := List.nodup_cons.1 hnodup
    -- the relations of the first group stand in front of all that come first in another one
    have hlater : ∀ h ∈ ks, firstAt (k.relations ++ ks.flatMap (·.relations)) h.ends =
        firstAt (ks.flatMap (·.relations)) h.ends + k.relations.length := by
      intro h hh
      refine firstAt_append_of_not_mem fun r hr hends => hk ?_
      exact List.mem_map.2 ⟨h, hh, hends.unique (hown k List.mem_cons_self r hr)⟩
    rw [List.flatMap_cons]
    refine List.pairwise_cons.2 ⟨fun h hh => ?_, ?_⟩
    · obtain ⟨hfirst, hlt⟩ := firstAt_append_of_mem (ks.flatMap (·.relations)) (hsome k List.mem_cons_self)
      rw [hfirst, hlater h hh]
      omega
    · have htail := ih (fun g hg => hown g (List.mem_cons_of_mem _ hg)) hks
        fun g hg => hsome g (List.mem_cons_of_mem _ hg)
      refine htail.imp_of_mem fun {g h} hg hh hlt => ?_
      rw [hlater g hg, hlater h hh]
      omega

end Concatenation

/-! ## Dividing relations -/

/-- Groups that divide relations by their ends: one for each pair that occurs, in the order in which pairs occur
first, of the relations between the two in their order. -/
structure Divides (rs : List Relation) (gs : List RelationGroup) : Prop where
  mem_ends : ∀ ends, ends ∈ gs.map (fun g => (g.source, g.target)) ↔ ∃ r ∈ rs, r.Links ends
  ordered : gs.Pairwise fun g h => firstAt rs (g.source, g.target) < firstAt rs (h.source, h.target)
  relations : ∀ g ∈ gs, g.relations = rs.filter (·.Links (g.source, g.target))

theorem divides_compact (rs : List Relation) : Divides rs (compact rs) where
  mem_ends ends := by
    have hpairs : (compact rs).map (fun g => (g.source, g.target)) = pairs rs := by
      rw [compact_eq, List.map_map]
      exact List.map_id _
    rw [hpairs, mem_pairs]
  ordered := by
    rw [compact_eq, List.pairwise_map]
    exact pairwise_firstAt_pairs rs
  relations g hg := by
    rw [compact_eq] at hg
    obtain ⟨ends, -, rfl⟩ := List.mem_map.1 hg
    rfl

namespace Divides

variable {gs hs : List RelationGroup} {g : RelationGroup}

theorem nodup_ends (h : Divides rs gs) : (gs.map (·.ends)).Nodup := by
  refine List.pairwise_map.2 (h.ordered.imp fun {g g'} hlt heq => ?_)
  exact Nat.lt_irrefl _ (congrArg (firstAt rs) heq ▸ hlt)

theorem links_of_mem (h : Divides rs gs) (hg : g ∈ gs) (hr : r ∈ g.relations) : r.Links g.ends := by
  rw [h.relations g hg, List.mem_filter] at hr
  exact of_decide_eq_true hr.2

theorem exists_mem (h : Divides rs gs) (hg : g ∈ gs) : ∃ r ∈ g.relations, r.Links g.ends := by
  obtain ⟨r, hr, hends⟩ := (h.mem_ends g.ends).1 (List.mem_map_of_mem hg)
  refine ⟨r, ?_, hends⟩
  rw [h.relations g hg]
  exact List.mem_filter.2 ⟨hr, decide_eq_true hends⟩

theorem map_groupOf (h : Divides rs gs) : (gs.map (·.ends)).map (groupOf rs) = gs := by
  rw [List.map_map]
  refine (List.map_congr_left fun g hg => ?_).trans (List.map_id gs)
  show RelationGroup.mk g.source g.target (rs.filter (·.Links (g.source, g.target))) = g
  rw [← h.relations g hg]

/-- Relations are divided in one way. -/
theorem unique (h : Divides rs gs) (h' : Divides rs hs) : gs = hs := by
  have hmem (ends : String × String) : ends ∈ gs.map (·.ends) ↔ ends ∈ hs.map (·.ends) :=
    (h.mem_ends ends).trans (h'.mem_ends ends).symm
  have hordered {ks : List RelationGroup} (hks : Divides rs ks) :
      (ks.map (·.ends)).Pairwise fun d e => firstAt rs d < firstAt rs e := List.pairwise_map.2 hks.ordered
  have hends : gs.map (·.ends) = hs.map (·.ends) :=
    ((List.perm_ext_iff_of_nodup h.nodup_ends h'.nodup_ends).2 hmem).eq_of_pairwise
      (fun d e _ _ hlt hgt => absurd hlt (Nat.lt_asymm hgt)) (hordered h) (hordered h')
  rw [← h.map_groupOf, hends, h'.map_groupOf]

/-- The relations of all groups, one group after the other, are divided into the same groups. -/
theorem flatMap_relations (h : Divides rs gs) : Divides (gs.flatMap (·.relations)) gs where
  mem_ends ends := by
    simp only [List.mem_map, List.mem_flatMap]
    constructor
    · rintro ⟨g, hg, rfl⟩
      obtain ⟨r, hr, hends⟩ := h.exists_mem hg
      exact ⟨r, ⟨g, hg, hr⟩, hends⟩
    · rintro ⟨r, ⟨g, hg, hr⟩, hends⟩
      exact ⟨g, hg, (h.links_of_mem hg hr).unique hends⟩
  ordered := pairwise_firstAt_flatMap (fun _ hg _ hr => h.links_of_mem hg hr) h.nodup_ends fun _ hg => h.exists_mem hg
  relations _ hg := (filter_flatMap_relations (fun _ hg _ hr => h.links_of_mem hg hr) h.nodup_ends hg).symm

end Divides

/-- **Compacting divides relations and keeps their order**: the groups have distinct ends and come as these occur
first, each with the relations between its ends in their order. So every relation with a target is in one group, once,
and none without a target is; and the relations of all groups are compacted to the same groups again. -/
theorem compact_stable (rs : List Relation) :
    Divides rs (compact rs) ∧ ((compact rs).map fun g => (g.source, g.target)).Nodup ∧
      ((compact rs).map (·.weight)).sum = rs.countP (·.target.isSome) ∧
      ((compact rs).flatMap (·.relations)).Perm (rs.filter (·.target.isSome)) ∧
      compact ((compact rs).flatMap (·.relations)) = compact rs := by
  have hdivides := divides_compact rs
  have hperm := relations_compact_perm rs
  have hweights : ((compact rs).map (·.weight)).sum = ((compact rs).flatMap (·.relations)).length :=
    List.length_flatMap.symm
  refine ⟨hdivides, hdivides.nodup_ends, ?_, hperm, ?_⟩
  · rw [hweights, hperm.length_eq, List.countP_eq_length_filter]
  · exact (divides_compact _).unique hdivides.flatMap_relations

end Coupling
