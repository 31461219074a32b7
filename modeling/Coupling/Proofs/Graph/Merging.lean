/-
What becomes of names and edges when vertices are merged by key.

Merging one partition takes its members away, puts its key in their place, and
moves the edges that have one end among the members (`mem_names_mergePartition`,
`views_mergePartition`).

Partitions are merged one after the other, by name. So a key that is the name of
a vertex of a later partition does not last: what was put under it is taken away
with that vertex. The names left are the keys that this does not happen to
(`names_mergeByKey`).
-/
import Coupling.Proofs.Graph.WellFormed
import Coupling.Proofs.Matched

namespace Coupling.Graph

variable {ω : Type} {g : Graph ω} {how : Redirect ω} {p : Partition}

/-! ## Names of one partition -/

theorem WellFormed.mem_vertices_cleared (h : g.WellFormed) (hp : p.members.Nodup) {x : Vertex} :
    x ∈ (g.cleared p).vertices ↔ (x ∈ g.vertices ∧ x.name ∉ p.members) ∨ x = ⟨g.mergedId p, p.key⟩ := by
  have hdropped : x ∈ (g.dropAll (g.memberIds p)).vertices ↔ x ∈ g.vertices ∧ x.name ∉ p.members := by
    rw [vertices_dropAll, List.mem_filter]
    refine and_congr_right fun hx => ?_
    have hmember := h.mem_memberIds (p := p) (v := x.id)
    rw [h.nameOf_of_mem hx] at hmember
    simp [hmember, id_mem_ids hx]
  rw [← hdropped]
  exact (h.dropMembers hp).mem_vertices_ensure

/-- The members give way to the key. -/
theorem WellFormed.mem_names_mergePartition (h : g.WellFormed) (hp : p.members.Nodup) {n : String} :
    n ∈ (g.mergePartition how p).names ↔ (n ∈ g.names ∧ n ∉ p.members) ∨ n = p.key := by
  rw [mergePartition_eq]
  simp only [mem_names, vertices_linkAll, h.mem_vertices_cleared hp]
  constructor
  · rintro ⟨x, ⟨hx, hmember⟩ | rfl, rfl⟩
    · exact .inl ⟨⟨x, hx, rfl⟩, hmember⟩
    · exact .inr rfl
  · rintro (⟨⟨x, hx, rfl⟩, hmember⟩ | rfl)
    · exact ⟨x, .inl ⟨hx, hmember⟩, rfl⟩
    · exact ⟨_, .inr rfl, rfl⟩

/-! ## Edges of one partition -/

/-- What becomes of an edge when a partition is merged: an end among the members moves to the key. Edges
with both ends there have no successor. -/
inductive Moved (how : Redirect ω) (p : Partition) : EdgeView ω → EdgeView ω → Prop
  | into {e : EdgeView ω} (hs : e.source ∉ p.members) (ht : e.target ∈ p.members) (id : Nat) :
      Moved how p e ⟨id, e.source, p.key, how.into e p.key⟩
  | outOf {e : EdgeView ω} (hs : e.source ∈ p.members) (ht : e.target ∉ p.members) (id : Nat) :
      Moved how p e ⟨id, p.key, e.target, how.outOf p.key e⟩
  | stayed {e : EdgeView ω} (hs : e.source ∉ p.members) (ht : e.target ∉ p.members) : Moved how p e e

/-- The edges from elsewhere to a member. -/
def entering (g : Graph ω) (p : Partition) : List (Edge ω) :=
  g.edges.filter fun e => (g.memberIds p).contains e.target && !(g.memberIds p).contains e.source

/-- The edges from a member to elsewhere. -/
def leaving (g : Graph ω) (p : Partition) : List (Edge ω) :=
  g.edges.filter fun e => (g.memberIds p).contains e.source && !(g.memberIds p).contains e.target

/-- The edges with no end among the members. -/
def untouched (g : Graph ω) (p : Partition) : List (Edge ω) :=
  g.edges.filter fun e => !(g.memberIds p).contains e.source && !(g.memberIds p).contains e.target

theorem edges_cleared (g : Graph ω) (p : Partition) : (g.cleared p).edges = g.untouched p := by
  unfold cleared untouched
  rw [edges_ensure, edges_dropAll]

/-- Ends and weights of the edges with one end among the members, when that end has moved. -/
def movedContents (g : Graph ω) (how : Redirect ω) (p : Partition) : List (Nat × Nat × ω) :=
  ((g.entering p).map fun e => (e.source, g.mergedId p, how.into (g.view e) p.key)) ++
    (g.leaving p).map fun e => (g.mergedId p, e.target, how.outOf p.key (g.view e))

/-- The new edges stand for those with one end among the members. -/
theorem mergedEdges_perm (how : Redirect ω) (hms : (g.memberIds p).Nodup) :
    (g.mergedEdges how p).Perm (g.movedContents how p) := by
  have hlists : g.mergedEdges how p = (g.memberIds p).flatMap fun v =>
      (((g.into v).filter (!(g.memberIds p).contains ·.source)).map fun e =>
        (e.source, g.mergedId p, how.into (g.view e) p.key)) ++
      (((g.outOf v).filter (!(g.memberIds p).contains ·.target)).map fun e =>
        (g.mergedId p, e.target, how.outOf p.key (g.view e))) := by
    unfold mergedEdges redirected
    rw [List.map_flatMap]
    simp only [List.map_append, List.map_map, Function.comp_def, Option.getD_some, Option.getD_none]
  have hinto := (flatMap_filter_perm g.edges (·.target) (!(g.memberIds p).contains ·.source) hms).map
    fun e => (e.source, g.mergedId p, how.into (g.view e) p.key)
  have hout := (flatMap_filter_perm g.edges (·.source) (!(g.memberIds p).contains ·.target) hms).map
    fun e => (g.mergedId p, e.target, how.outOf p.key (g.view e))
  rw [List.map_flatMap] at hinto hout
  rw [hlists]
  exact (List.flatMap_append_perm _ _ _).symm.trans (hinto.append hout)

/-- An edge that does not lie within a partition enters it, leaves it or does not touch it. -/
theorem outside_perm (g : Graph ω) (p : Partition) :
    (g.edges.filter fun e => !((g.memberIds p).contains e.source && (g.memberIds p).contains e.target)).Perm
      ((g.entering p ++ g.leaving p) ++ g.untouched p) := by
  have htarget := List.filter_append_perm (fun e => (g.memberIds p).contains e.target)
    (g.edges.filter fun e => !((g.memberIds p).contains e.source && (g.memberIds p).contains e.target))
  have hsource := List.filter_append_perm (fun e => (g.memberIds p).contains e.source)
    (g.edges.filter fun e => !(g.memberIds p).contains e.target)
  rw [List.filter_filter, List.filter_filter] at htarget hsource
  have hentering : (g.edges.filter fun e => (g.memberIds p).contains e.target &&
      !((g.memberIds p).contains e.source && (g.memberIds p).contains e.target)) = g.entering p := by
    refine List.filter_congr fun e _ => ?_
    cases (g.memberIds p).contains e.target <;> simp
  have hrest : (g.edges.filter fun e => !(g.memberIds p).contains e.target &&
      !((g.memberIds p).contains e.source && (g.memberIds p).contains e.target)) =
        g.edges.filter fun e => !(g.memberIds p).contains e.target := by
    refine List.filter_congr fun e _ => ?_
    cases (g.memberIds p).contains e.target <;> simp
  rw [hentering, hrest] at htarget
  rw [List.append_assoc]
  exact htarget.symm.trans (hsource.symm.append_left _)

theorem WellFormed.contains_memberIds (h : g.WellFormed) {v : Nat} (hv : v ∈ g.ids) :
    (g.memberIds p).contains v = p.members.contains (g.nameOf v) := by
  have hiff := h.mem_memberIds (p := p) (v := v)
  simp [hiff, hv]

/-- The vertex of a partition bears its key, and vertices that are no members keep their names. -/
theorem WellFormed.nameOf_mergePartition (h : g.WellFormed) (how : Redirect ω) (hp : p.members.Nodup) :
    (g.mergePartition how p).nameOf (g.mergedId p) = p.key ∧
      ∀ v ∈ g.ids, (g.memberIds p).contains v = false → (g.mergePartition how p).nameOf v = g.nameOf v := by
  have h' := h.mergePartition how hp
  have hmem : ∀ x, x ∈ (g.mergePartition how p).vertices ↔
      (x ∈ g.vertices ∧ x.name ∉ p.members) ∨ x = ⟨g.mergedId p, p.key⟩ := by
    intro x
    rw [mergePartition_eq, vertices_linkAll]
    exact h.mem_vertices_cleared hp
  refine ⟨h'.nameOf_of_mem ((hmem _).2 (.inr rfl)), fun v hv hmember => ?_⟩
  rw [h.contains_memberIds hv] at hmember
  exact h'.nameOf_of_mem ((hmem _).2 (.inl ⟨h.mem_vertices hv, by simpa using hmember⟩))

theorem WellFormed.moved_of_entering (h : g.WellFormed) (hp : p.members.Nodup) {e f : Edge ω} (he : e ∈ g.entering p)
    (hf : (e.source, g.mergedId p, how.into (g.view e) p.key) = f.content) :
    Moved how p (g.view e) ((g.mergePartition how p).view f) := by
  obtain ⟨hmerged, hother⟩ := h.nameOf_mergePartition how hp
  obtain ⟨he, hin⟩ := List.mem_filter.1 he
  obtain ⟨ht, hs⟩ := Bool.and_eq_true_iff.1 hin
  rw [Bool.not_eq_true'] at hs
  simp only [Edge.content, Prod.mk.injEq] at hf
  obtain ⟨hfs, hft, hfw⟩ := hf
  have hview : (g.mergePartition how p).view f = ⟨f.id, g.nameOf e.source, p.key, how.into (g.view e) p.key⟩ := by
    unfold view
    rw [← hfs, ← hft, ← hfw, hmerged, hother _ (h.sources e he) hs]
    rfl
  rw [h.contains_memberIds (h.targets e he)] at ht
  rw [h.contains_memberIds (h.sources e he)] at hs
  rw [hview]
  exact .into (e := g.view e) (by simpa [view] using hs) (by simpa [view] using ht) f.id

theorem WellFormed.moved_of_leaving (h : g.WellFormed) (hp : p.members.Nodup) {e f : Edge ω} (he : e ∈ g.leaving p)
    (hf : (g.mergedId p, e.target, how.outOf p.key (g.view e)) = f.content) :
    Moved how p (g.view e) ((g.mergePartition how p).view f) := by
  obtain ⟨hmerged, hother⟩ := h.nameOf_mergePartition how hp
  obtain ⟨he, hout⟩ := List.mem_filter.1 he
  obtain ⟨hs, ht⟩ := Bool.and_eq_true_iff.1 hout
  rw [Bool.not_eq_true'] at ht
  simp only [Edge.content, Prod.mk.injEq] at hf
  obtain ⟨hfs, hft, hfw⟩ := hf
  have hview : (g.mergePartition how p).view f = ⟨f.id, p.key, g.nameOf e.target, how.outOf p.key (g.view e)⟩ := by
    unfold view
    rw [← hfs, ← hft, ← hfw, hmerged, hother _ (h.targets e he) ht]
    rfl
  rw [h.contains_memberIds (h.targets e he)] at ht
  rw [h.contains_memberIds (h.sources e he)] at hs
  rw [hview]
  exact .outOf (e := g.view e) (by simpa [view] using hs) (by simpa [view] using ht) f.id

theorem WellFormed.moved_of_untouched (h : g.WellFormed) (hp : p.members.Nodup) {e : Edge ω} (he : e ∈ g.untouched p) :
    Moved how p (g.view e) ((g.mergePartition how p).view e) := by
  obtain ⟨-, hother⟩ := h.nameOf_mergePartition how hp
  obtain ⟨he, hout⟩ := List.mem_filter.1 he
  obtain ⟨hs, ht⟩ := Bool.and_eq_true_iff.1 hout
  rw [Bool.not_eq_true'] at hs ht
  have hview : (g.mergePartition how p).view e = g.view e := by
    unfold view
    rw [hother _ (h.sources e he) hs, hother _ (h.targets e he) ht]
  rw [h.contains_memberIds (h.targets e he)] at ht
  rw [h.contains_memberIds (h.sources e he)] at hs
  rw [hview]
  exact .stayed (by simpa [view] using hs) (by simpa [view] using ht)

/-- **Merging a partition moves the edges that do not lie within it**, one to one. -/
theorem WellFormed.views_mergePartition (h : g.WellFormed) (how : Redirect ω) (hp : p.members.Nodup) :
    Matched (Moved how p)
      (g.views.filter fun e => !(p.members.contains e.source && p.members.contains e.target))
      (g.mergePartition how p).views := by
  obtain ⟨fresh, hedges, hcontent⟩ := (g.cleared p).edges_linkAll (g.mergedEdges how p)
  have hbefore : g.views.filter (fun e => !(p.members.contains e.source && p.members.contains e.target)) =
      (g.edges.filter fun e =>
        !((g.memberIds p).contains e.source && (g.memberIds p).contains e.target)).map g.view := by
    unfold views
    rw [List.filter_map]
    refine congrArg _ (List.filter_congr fun e he => ?_)
    rw [h.contains_memberIds (h.sources e he), h.contains_memberIds (h.targets e he)]
    rfl
  have hafter : (g.mergePartition how p).views =
      fresh.map (g.mergePartition how p).view ++ (g.untouched p).map (g.mergePartition how p).view := by
    unfold views
    rw [← List.map_append, ← edges_cleared, ← hedges, mergePartition_eq]
  -- an edge with one end among the members becomes one with given ends and weight, whatever its number
  have hends : Matched (fun e c => ∀ f : Edge ω, c = f.content →
        Moved how p (g.view e) ((g.mergePartition how p).view f))
      (g.entering p ++ g.leaving p) (g.movedContents how p) := by
    refine (Matched.of_forall₂ (List.forall₂_map_right_iff.2 (List.forall₂_same.2 fun e he f hf => ?_))).append
      (Matched.of_forall₂ (List.forall₂_map_right_iff.2 (List.forall₂_same.2 fun e he f hf => ?_)))
    · exact h.moved_of_entering hp he hf
    · exact h.moved_of_leaving hp he hf
  have hnumbers : Matched (fun c f => c = f.content) (g.movedContents how p) fresh := by
    refine Matched.of_map_perm (a := id) ?_
    rw [List.map_id, hcontent]
    exact (mergedEdges_perm how (h.memberIds_nodup hp)).symm.trans (List.reverse_perm _).symm
  have hmoved : Matched (Moved how p) ((g.entering p ++ g.leaving p).map g.view)
      (fresh.map (g.mergePartition how p).view) := by
    refine (hends.comp hnumbers).map fun e _ f _ hef => ?_
    obtain ⟨c, hec, hcf⟩ := hef
    exact hec f hcf
  have hstayed : Matched (Moved how p) ((g.untouched p).map g.view)
      ((g.untouched p).map (g.mergePartition how p).view) :=
    .of_forall₂ (List.forall₂_map_left_iff.2 (List.forall₂_map_right_iff.2
      (List.forall₂_same.2 fun e he => h.moved_of_untouched hp he)))
  rw [hbefore, hafter]
  refine (hmoved.append hstayed).of_perm ?_ (.refl _)
  rw [← List.map_append]
  exact (g.outside_perm p).map _

/-! ## Keys -/

variable {keyOf : String → String}

/-- The place of a key among the keys: that of the first vertex that has it. -/
def keyRank (g : Graph ω) (keyOf : String → String) (k : String) : Nat := (g.names.map keyOf).idxOf k

/-- The one vertex of a key is named by it. -/
def Alone (g : Graph ω) (keyOf : String → String) (k : String) : Prop := g.names.filter (keyOf · == k) = [k]

instance (g : Graph ω) (keyOf : String → String) (k : String) : Decidable (g.Alone keyOf k) :=
  inferInstanceAs (Decidable (_ = _))

/-- A key is the name of a vertex whose own key comes later. -/
def Swallowed (g : Graph ω) (keyOf : String → String) (k : String) : Prop :=
  k ∈ g.names ∧ g.keyRank keyOf k < g.keyRank keyOf (keyOf k)

instance (g : Graph ω) (keyOf : String → String) (k : String) : Decidable (g.Swallowed keyOf k) :=
  inferInstanceAs (Decidable (_ ∧ _))

theorem Alone.mem {k : String} (h : g.Alone keyOf k) : k ∈ g.names ∧ keyOf k = k := by
  have hmem : k ∈ g.names.filter (keyOf · == k) := by
    rw [h]
    exact List.mem_singleton_self k
  rw [List.mem_filter, beq_iff_eq] at hmem
  exact hmem

/-- What has the key of a vertex alone is that vertex. -/
theorem Alone.eq {v : String} (h : g.Alone keyOf (keyOf v)) (hv : v ∈ g.names) : v = keyOf v := by
  have hmem : v ∈ g.names.filter (keyOf · == keyOf v) := List.mem_filter.2 ⟨hv, by simp⟩
  rw [h] at hmem
  exact List.mem_singleton.1 hmem

/-- The partitions that are merged, in order. -/
def rewritten (g : Graph ω) (keyOf : String → String) : List Partition :=
  (partitions keyOf g.names).filter (!·.isTrivial)

theorem mergeByKey_eq (g : Graph ω) (keyOf : String → String) (how : Redirect ω) :
    g.mergeByKey keyOf how = (g.rewritten keyOf).foldl (·.mergePartition how ·) g := rfl

theorem members_of_mem_rewritten (hp : p ∈ g.rewritten keyOf) : p.members = g.names.filter (keyOf · == p.key) :=
  (partitioned_partitions keyOf g.names).members p (List.mem_of_mem_filter hp)

/-- The keys whose partitions are merged are those of no vertex alone. -/
theorem mem_keys_rewritten {k : String} :
    k ∈ (g.rewritten keyOf).map (·.key) ↔ k ∈ g.names.map keyOf ∧ ¬ g.Alone keyOf k := by
  have hps := partitioned_partitions keyOf g.names
  have htrivial : ∀ p ∈ partitions keyOf g.names, p.isTrivial = true ↔ g.Alone keyOf p.key := by
    intro p hp
    unfold Partition.isTrivial Alone
    rw [hps.members p hp, beq_iff_eq]
  rw [← hps.keys, List.mem_map, List.mem_map]
  unfold rewritten
  constructor
  · rintro ⟨p, hp, rfl⟩
    obtain ⟨hp, hnot⟩ := List.mem_filter.1 hp
    refine ⟨⟨p, hp, rfl⟩, fun halone => ?_⟩
    rw [(htrivial p hp).2 halone] at hnot
    cases hnot
  · rintro ⟨⟨p, hp, rfl⟩, halone⟩
    refine ⟨p, List.mem_filter.2 ⟨hp, ?_⟩, rfl⟩
    rw [Bool.not_eq_true', ← Bool.not_eq_true, htrivial p hp]
    exact halone

/-- Partitions are merged in the order of their keys. -/
theorem rewritten_ordered (g : Graph ω) (keyOf : String → String) :
    (g.rewritten keyOf).Pairwise fun p q => g.keyRank keyOf p.key < g.keyRank keyOf q.key :=
  (List.pairwise_map.1 (partitioned_partitions keyOf g.names).order).filter _

/-! ## Names of all partitions -/

/-- A name is left if it was there and no partition has it, or if it is a key and no later partition has
it. -/
theorem WellFormed.mem_names_mergePartitions (h : g.WellFormed) {rank : String → Nat} {ps : List Partition}
    (hps : ∀ p ∈ ps, p.members.Nodup) (hrank : ps.Pairwise fun p q => rank p.key < rank q.key) {n : String} :
    n ∈ (ps.foldl (·.mergePartition how ·) g).names ↔
      (n ∈ g.names ∧ ∀ p ∈ ps, n ∉ p.members) ∨
        ∃ p ∈ ps, p.key = n ∧ ∀ q ∈ ps, rank p.key < rank q.key → n ∉ q.members := by
  induction ps generalizing g with
  | nil => simp
  | cons p ps ih =>
    obtain ⟨hlater, hrank⟩ := List.pairwise_cons.1 hrank
    have hp := hps p (by simp)
    rw [List.foldl_cons, ih (h.mergePartition how hp) (fun q hq => hps q (by simp [hq])) hrank,
      h.mem_names_mergePartition hp]
    constructor
    · rintro (⟨⟨hn, hnp⟩ | rfl, hrest⟩ | ⟨q, hq, rfl, hrest⟩)
      · refine .inl ⟨hn, fun q hq => ?_⟩
        rcases List.mem_cons.1 hq with rfl | hq
        · exact hnp
        · exact hrest q hq
      · refine .inr ⟨p, by simp, rfl, fun q hq hlt => ?_⟩
        rcases List.mem_cons.1 hq with rfl | hq
        · exact absurd hlt (Nat.lt_irrefl _)
        · exact hrest q hq
      · refine .inr ⟨q, by simp [hq], rfl, fun q' hq' hlt => ?_⟩
        rcases List.mem_cons.1 hq' with rfl | hq'
        · exact absurd (hlater q hq) (Nat.lt_asymm hlt)
        · exact hrest q' hq' hlt
    · rintro (⟨hn, hrest⟩ | ⟨q, hq, rfl, hrest⟩)
      · exact .inl ⟨.inl ⟨hn, hrest p (by simp)⟩, fun q hq => hrest q (by simp [hq])⟩
      · rcases List.mem_cons.1 hq with rfl | hq
        · exact .inl ⟨.inr rfl, fun q' hq' => hrest q' (by simp [hq']) (hlater q' hq')⟩
        · exact .inr ⟨q, hq, rfl, fun q' hq' hlt => hrest q' (by simp [hq']) hlt⟩

/-- The names left are the keys that are not swallowed. -/
theorem WellFormed.mem_names_mergeByKey (h : g.WellFormed) {k : String} :
    k ∈ (g.mergeByKey keyOf how).names ↔ k ∈ g.names.map keyOf ∧ ¬ g.Swallowed keyOf k := by
  -- a vertex is in the partition of its key, which is merged unless the vertex is alone
  have hmember : ∀ p ∈ g.rewritten keyOf, ∀ n, n ∈ p.members ↔ n ∈ g.names ∧ keyOf n = p.key := by
    intro p hp n
    rw [members_of_mem_rewritten hp, List.mem_filter, beq_iff_eq]
  have hown : ∀ n ∈ g.names, ¬ g.Alone keyOf (keyOf n) →
      ∃ p ∈ g.rewritten keyOf, p.key = keyOf n ∧ n ∈ p.members := by
    intro n hn halone
    obtain ⟨p, hp, hkey⟩ := List.mem_map.1 (mem_keys_rewritten.2 ⟨List.mem_map_of_mem hn, halone⟩)
    exact ⟨p, hp, hkey, (hmember p hp n).2 ⟨hn, hkey.symm⟩⟩
  have hnodup : ∀ p ∈ g.rewritten keyOf, p.members.Nodup := fun p hp =>
    (partitioned_partitions keyOf g.names).members_nodup h.names (List.mem_of_mem_filter hp)
  rw [mergeByKey_eq, h.mem_names_mergePartitions hnodup (g.rewritten_ordered keyOf)]
  constructor
  · rintro (⟨hk, hrest⟩ | ⟨p, hp, rfl, hrest⟩)
    · have halone : g.Alone keyOf (keyOf k) := by
        by_contra halone
        obtain ⟨p, hp, -, hmem⟩ := hown k hk halone
        exact hrest p hp hmem
      have hself := halone.eq hk
      refine ⟨List.mem_map.2 ⟨k, hk, hself.symm⟩, fun hswallowed => ?_⟩
      have hlt := hswallowed.2
      rw [← hself] at hlt
      exact Nat.lt_irrefl _ hlt
    · refine ⟨(mem_keys_rewritten.1 (List.mem_map_of_mem hp)).1, fun ⟨hname, hlt⟩ => ?_⟩
      have halone : ¬ g.Alone keyOf (keyOf p.key) := by
        intro halone
        rw [← halone.eq hname] at hlt
        exact Nat.lt_irrefl _ hlt
      obtain ⟨q, hq, hkey, hmem⟩ := hown p.key hname halone
      exact hrest q hq (hkey ▸ hlt) hmem
  · rintro ⟨hkey, hkept⟩
    by_cases halone : g.Alone keyOf k
    · obtain ⟨hk, hself⟩ := halone.mem
      refine .inl ⟨hk, fun p hp hmem => ?_⟩
      have hpk : p.key = k := ((hmember p hp k).1 hmem).2.symm.trans hself
      exact (mem_keys_rewritten.1 (List.mem_map_of_mem hp)).2 (hpk ▸ halone)
    · obtain ⟨p, hp, rfl⟩ := List.mem_map.1 (mem_keys_rewritten.2 ⟨hkey, halone⟩)
      refine .inr ⟨p, hp, rfl, fun q hq hlt hmem => hkept ?_⟩
      obtain ⟨hname, hown⟩ := (hmember q hq p.key).1 hmem
      exact ⟨hname, hown ▸ hlt⟩

/-- **What names are left.** They are distinct, and they are the keys, except those that are the names of
vertices with a later key. So the names left are the keys just if there is no such exception. -/
theorem names_mergeByKey (hg : g.Built) (keyOf : String → String) (how : Redirect ω) :
    (g.mergeByKey keyOf how).names.Nodup ∧
      (∀ k, k ∈ (g.mergeByKey keyOf how).names ↔ (∃ v ∈ g.names, keyOf v = k) ∧ ¬ g.Swallowed keyOf k) ∧
      ((∀ k, k ∈ (g.mergeByKey keyOf how).names ↔ ∃ v ∈ g.names, keyOf v = k) ↔
        ∀ v ∈ g.names, ¬ g.Swallowed keyOf (keyOf v)) := by
  have hnames : ∀ k, k ∈ (g.mergeByKey keyOf how).names ↔
      (∃ v ∈ g.names, keyOf v = k) ∧ ¬ g.Swallowed keyOf k := by
    intro k
    rw [hg.wellFormed.mem_names_mergeByKey, List.mem_map]
  refine ⟨(hg.mergeByKey keyOf how).wellFormed.names, hnames, ?_, ?_⟩
  · intro hkeys v hv
    exact ((hnames (keyOf v)).1 ((hkeys (keyOf v)).2 ⟨v, hv, rfl⟩)).2
  · intro hkept k
    rw [hnames, and_iff_left_iff_imp]
    rintro ⟨v, hv, rfl⟩
    exact hkept v hv

/-- Two vertices without edges. -/
def twoNames : Graph Nat := ((empty.addVertex "A").2.addVertex "B").2

theorem built_twoNames : twoNames.Built := .addVertex (.addVertex .empty _) _

/-- Weights stay as they are. -/
def sameWeight : Redirect Nat := ⟨fun e _ => e.weight, fun _ e => e.weight⟩

/-- A key that is the name of a vertex lasts if the vertex has an earlier key. -/
theorem names_mergeByKey_twoNames :
    let after := twoNames.mergeByKey (fun n => if n = "A" then "C" else "A") sameWeight
    after.names.Nodup ∧ "A" ∈ after.names ∧ "B" ∉ after.names ∧ "C" ∈ after.names := by
  intro after
  obtain ⟨hnodup, -, hkeys⟩ := names_mergeByKey built_twoNames (fun n => if n = "A" then "C" else "A") sameWeight
  have hkept := hkeys.2 (by decide +kernel)
  have hnames : twoNames.names = ["A", "B"] := by decide +kernel
  rw [hnames] at hkept
  refine ⟨hnodup, (hkept "A").2 ⟨"B", by simp, by simp⟩, fun hb => ?_, (hkept "C").2 ⟨"A", by simp, by simp⟩⟩
  obtain ⟨v, -, hv⟩ := (hkept "B").1 hb
  split at hv <;> exact absurd hv (by decide)

/-- The names left are not always the keys: what is put under the name of a later vertex goes with it. -/
theorem names_mergeByKey_not_keys :
    ¬ ∀ (g : Graph Nat) (keyOf : String → String) (how : Redirect Nat), g.Built →
      ∀ k, k ∈ (g.mergeByKey keyOf how).names ↔ ∃ v ∈ g.names, keyOf v = k := by
  intro h
  have hkeys := h twoNames (fun n => if n = "A" then "B" else "C") sameWeight built_twoNames "B"
  have hlost : "B" ∉ (twoNames.mergeByKey (fun n => if n = "A" then "B" else "C") sameWeight).names := by
    decide +kernel
  exact hlost (hkeys.2 ⟨"A", by decide +kernel, by decide +kernel⟩)

end Coupling.Graph
