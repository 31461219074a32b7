/-
What holds of every graph that the operations make.

A graph is well formed if its names are distinct and indexed, if its vertices and
its edges have numbers of their own, none of which is still to be handed out, and
if edges run between vertices. The empty graph is well formed and every operation
keeps that (`Built.wellFormed`); the graphs that are made anew are made by adding
vertices and edges to the empty one. A name and a number then stand for one vertex
(`idOf?_eq_some_iff`, `nameOf_of_mem`), so all that can be seen of a graph is its
names and its edges with the names of their ends, its `views`.
-/
import Coupling.DependencyGraph
import Coupling.Graph.Path
import Coupling.Graph.Reach
import Coupling.Proofs.Distinct
import Coupling.Proofs.Graph.Partition
import Coupling.Proofs.SortedMap

namespace Coupling

/-! ## Numbers in use -/

namespace IdPool

variable {p : IdPool} {used : List Nat}

/-- The numbers in use and those given back are all different and below the bound. -/
structure Fits (p : IdPool) (used : List Nat) : Prop where
  nodup : (used ++ p.free).Nodup
  below : ∀ n ∈ used ++ p.free, n < p.bound

theorem fits_nil : ({} : IdPool).Fits [] := ⟨by simp, by simp⟩

/-- Numbers may be listed in any order, and pass from one side to the other. -/
theorem Fits.of_perm {q : IdPool} {used' : List Nat} (h : p.Fits used) (hbound : q.bound = p.bound)
    (hperm : (used' ++ q.free).Perm (used ++ p.free)) : q.Fits used' := by
  refine ⟨hperm.nodup_iff.2 h.nodup, fun n hn => ?_⟩
  rw [hbound]
  exact h.below n (hperm.mem_iff.1 hn)

/-- The next number is in no use. -/
theorem Fits.take_not_mem (h : p.Fits used) : p.take.1 ∉ used := by
  intro hmem
  unfold take at hmem
  split at hmem
  · have hlt := h.below p.bound (List.mem_append_left _ hmem)
    omega
  · rename_i n free hfree
    have hnodup := h.nodup
    rw [hfree] at hnodup
    exact List.disjoint_of_nodup_append hnodup hmem (by simp)

theorem Fits.take (h : p.Fits used) : p.take.2.Fits (p.take.1 :: used) := by
  unfold IdPool.take
  split
  · rename_i hfree
    refine ⟨?_, ?_⟩
    · have hnew := h.take_not_mem
      have hnodup := h.nodup
      simp only [IdPool.take, hfree, List.append_nil] at hnew hnodup ⊢
      exact List.nodup_cons.2 ⟨hnew, hnodup⟩
    · intro n hn
      have hbelow := h.below n
      simp only [hfree, List.append_nil, List.mem_cons] at hn hbelow
      rcases hn with rfl | hn
      · exact Nat.lt_succ_self _
      · exact Nat.lt_succ_of_lt (hbelow hn)
  · rename_i n free hfree
    refine h.of_perm rfl ?_
    rw [hfree]
    exact List.perm_middle.symm

theorem releaseAll_eq (p : IdPool) (ns : List Nat) :
    p.releaseAll ns = { p with free := ns.reverse ++ p.free } := by
  induction ns generalizing p with
  | nil => rfl
  | cons n ns ih =>
    have hstep : p.releaseAll (n :: ns) = (p.release n).releaseAll ns := rfl
    rw [hstep, ih]
    simp [release]

/-- Of the numbers in use some are given back. -/
theorem Fits.releaseAll (h : p.Fits used) (ns : List Nat) {rest : List Nat} (hperm : used.Perm (ns ++ rest)) :
    (p.releaseAll ns).Fits rest := by
  have hback : (rest ++ ns.reverse).Perm used :=
    List.perm_append_comm.trans ((ns.reverse_perm.append_right rest).trans hperm.symm)
  rw [releaseAll_eq]
  refine h.of_perm rfl ?_
  rw [← List.append_assoc]
  exact hback.append_right _

end IdPool

/-- The ends and the weight of an edge. -/
def Edge.content {ω : Type} (e : Edge ω) : Nat × Nat × ω := (e.source, e.target, e.weight)

namespace Graph

variable {ω : Type} {g : Graph ω}

/-- The numbers of the vertices. -/
def ids (g : Graph ω) : List Nat := g.vertices.map (·.id)

/-- The edges with the names of their ends, newest first. -/
def views (g : Graph ω) : List (EdgeView ω) := g.edges.map g.view

/-- Names and numbers are distinct, the index has the vertices and nothing else, no number in use can be
handed out, and edges run between vertices. -/
structure WellFormed (g : Graph ω) : Prop where
  names : g.names.Nodup
  index : ∀ name v, g.index.get? name = some v ↔ ⟨v, name⟩ ∈ g.vertices
  vertexIds : g.vertexIds.Fits g.ids
  edgeIds : g.edgeIds.Fits (g.edges.map (·.id))
  sources : ∀ e ∈ g.edges, e.source ∈ g.ids
  targets : ∀ e ∈ g.edges, e.target ∈ g.ids

/-! ## Names and numbers -/

theorem mem_ids {v : Nat} : v ∈ g.ids ↔ ∃ x ∈ g.vertices, x.id = v := List.mem_map

theorem mem_names {name : String} : name ∈ g.names ↔ ∃ x ∈ g.vertices, x.name = name := List.mem_map

theorem id_mem_ids {x : Vertex} (hx : x ∈ g.vertices) : x.id ∈ g.ids := List.mem_map_of_mem hx

theorem name_mem_names {x : Vertex} (hx : x ∈ g.vertices) : x.name ∈ g.names := List.mem_map_of_mem hx

theorem WellFormed.ids_nodup (h : g.WellFormed) : g.ids.Nodup := h.vertexIds.nodup.of_append_left

/-- The vertex a name is found under is the one of that name. -/
theorem WellFormed.idOf?_eq_some_iff (h : g.WellFormed) {name : String} {v : Nat} :
    g.idOf? name = some v ↔ ⟨v, name⟩ ∈ g.vertices :=
  h.index name v

theorem WellFormed.idOf?_eq_none_iff (h : g.WellFormed) {name : String} :
    g.idOf? name = none ↔ name ∉ g.names := by
  rw [Option.eq_none_iff_forall_ne_some, mem_names, not_exists]
  constructor
  · rintro hnone x ⟨hx, rfl⟩
    exact hnone x.id (h.idOf?_eq_some_iff.2 hx)
  · intro hnone v hid
    exact hnone _ ⟨h.idOf?_eq_some_iff.1 hid, rfl⟩

theorem WellFormed.vertex?_of_mem (h : g.WellFormed) {x : Vertex} (hx : x ∈ g.vertices) :
    g.vertex? x.id = some x :=
  find?_of_nodup_map h.ids_nodup hx

/-- Names tell vertices apart as their numbers do. -/
theorem WellFormed.name_eq_iff (h : g.WellFormed) {x y : Vertex} (hx : x ∈ g.vertices) (hy : y ∈ g.vertices) :
    x.name = y.name ↔ x.id = y.id :=
  ⟨fun heq => congrArg Vertex.id (List.inj_on_of_nodup_map h.names hx hy heq),
    fun heq => congrArg Vertex.name (List.inj_on_of_nodup_map h.ids_nodup hx hy heq)⟩

theorem mem_among {wanted : List String} {x : Vertex} : x ∈ g.among wanted ↔ x ∈ g.vertices ∧ x.name ∈ wanted := by
  rw [among, List.mem_filter, List.contains_iff_mem]

theorem names_among (g : Graph ω) (wanted : List String) :
    (g.among wanted).map (·.name) = g.names.filter (wanted.contains ·) := by
  unfold among Graph.names
  rw [List.filter_map]
  rfl

theorem WellFormed.find?_edge (h : g.WellFormed) {e : Edge ω} (he : e ∈ g.edges) :
    g.edges.find? (·.id == e.id) = some e :=
  find?_of_nodup_map h.edgeIds.nodup.of_append_left he

theorem WellFormed.nameOf_of_mem (h : g.WellFormed) {x : Vertex} (hx : x ∈ g.vertices) :
    g.nameOf x.id = x.name := by
  unfold nameOf
  rw [h.vertex?_of_mem hx]
  rfl

/-- The name of a number is one of the vertex's. -/
theorem WellFormed.mem_vertices (h : g.WellFormed) {v : Nat} (hv : v ∈ g.ids) : ⟨v, g.nameOf v⟩ ∈ g.vertices := by
  obtain ⟨x, hx, rfl⟩ := mem_ids.1 hv
  rw [h.nameOf_of_mem hx]
  exact hx

theorem WellFormed.nameOf_mem (h : g.WellFormed) {v : Nat} (hv : v ∈ g.ids) : g.nameOf v ∈ g.names :=
  name_mem_names (h.mem_vertices hv)

/-- A number is found under its name. -/
theorem WellFormed.nameOf_eq_iff (h : g.WellFormed) {v w : Nat} {name : String} (hv : v ∈ g.ids)
    (hw : g.idOf? name = some w) : g.nameOf v = name ↔ v = w := by
  have hmem := h.idOf?_eq_some_iff.1 hw
  constructor
  · rintro rfl
    have hid := h.idOf?_eq_some_iff.2 (h.mem_vertices hv)
    exact Option.some.inj (hid.symm.trans hw)
  · rintro rfl
    exact h.nameOf_of_mem hmem

/-! ## Edges by names -/

theorem WellFormed.source_mem (h : g.WellFormed) {e : EdgeView ω} (he : e ∈ g.views) : e.source ∈ g.names := by
  obtain ⟨e', he', rfl⟩ := List.mem_map.1 he
  exact h.nameOf_mem (h.sources e' he')

theorem WellFormed.target_mem (h : g.WellFormed) {e : EdgeView ω} (he : e ∈ g.views) : e.target ∈ g.names := by
  obtain ⟨e', he', rfl⟩ := List.mem_map.1 he
  exact h.nameOf_mem (h.targets e' he')

/-- The edges with one end at a name, whether or not it is a vertex. -/
theorem WellFormed.edgesAt_eq (h : g.WellFormed) {ends : Edge ω → Nat} (hends : ∀ e ∈ g.edges, ends e ∈ g.ids)
    (name : String) : ((g.idOf? name).map fun v => (g.edges.filter (ends · == v)).map g.view).getD [] =
      (g.edges.filter fun e => g.nameOf (ends e) == name).map g.view := by
  cases hid : g.idOf? name with
  | none =>
    have hnone : (g.edges.filter fun e => g.nameOf (ends e) == name) = [] := by
      rw [List.filter_eq_nil_iff]
      intro e he hname
      rw [beq_iff_eq] at hname
      exact h.idOf?_eq_none_iff.1 hid (hname ▸ h.nameOf_mem (hends e he))
    rw [hnone]
    rfl
  | some v =>
    rw [Option.map_some, Option.getD_some]
    congr 1
    refine List.filter_congr fun e he => ?_
    have hiff := h.nameOf_eq_iff (hends e he) hid
    simp only [Bool.beq_eq_decide_eq, hiff]

theorem WellFormed.outEdges_eq (h : g.WellFormed) (name : String) :
    g.outEdges name = g.views.filter (·.source == name) := by
  rw [views, List.filter_map]
  exact h.edgesAt_eq h.sources name

theorem WellFormed.inEdges_eq (h : g.WellFormed) (name : String) :
    g.inEdges name = g.views.filter (·.target == name) := by
  rw [views, List.filter_map]
  exact h.edgesAt_eq h.targets name

theorem WellFormed.inEdges_of_mem (h : g.WellFormed) {v : Nat} {name : String} (hv : ⟨v, name⟩ ∈ g.vertices) :
    g.inEdges name = (g.into v).map g.view := by
  rw [inEdges, h.idOf?_eq_some_iff.2 hv]
  rfl

theorem WellFormed.outEdges_of_mem (h : g.WellFormed) {v : Nat} {name : String} (hv : ⟨v, name⟩ ∈ g.vertices) :
    g.outEdges name = (g.outOf v).map g.view := by
  rw [outEdges, h.idOf?_eq_some_iff.2 hv]
  rfl

theorem WellFormed.mem_outEdges (h : g.WellFormed) {x : String} {e : EdgeView ω} :
    e ∈ g.outEdges x ↔ e ∈ g.views ∧ e.source = x := by
  rw [h.outEdges_eq, List.mem_filter, beq_iff_eq]

theorem WellFormed.edgesBetween_eq (h : g.WellFormed) (source target : String) :
    g.edgesBetween source target = g.views.filter fun e => e.source == source && e.target == target := by
  unfold edgesBetween
  rw [h.outEdges_eq, List.filter_filter]
  exact List.filter_congr fun e _ => Bool.and_comm _ _

theorem WellFormed.length_edgesBetween (h : g.WellFormed) (source target : String) :
    (g.edgesBetween source target).length = (g.views.map fun e => (e.source, e.target)).count (source, target) := by
  rw [h.edgesBetween_eq, ← List.countP_eq_length_filter, List.count, List.countP_map]
  refine List.countP_congr fun e _ => ?_
  simp

/-- The edges by number are the edges. -/
theorem edgeViews_perm (g : Graph ω) : g.edgeViews.Perm g.views := (List.mergeSort_perm _ _).map _

/-! ## Operations on vertices -/

theorem placeVertex_perm (x : Vertex) (xs : List Vertex) : (placeVertex x xs).Perm (x :: xs) := by
  induction xs with
  | nil => exact .refl _
  | cons y ys ih =>
    unfold placeVertex
    split
    · exact .refl _
    · exact (ih.cons y).trans (.swap x y ys)

theorem ensure_of_mem {name : String} {v : Nat} (hid : g.idOf? name = some v) : g.ensure name = (v, g) := by
  simp [ensure, hid]

@[simp] theorem edges_ensure (g : Graph ω) (name : String) : (g.ensure name).2.edges = g.edges := by
  unfold ensure
  split <;> rfl

theorem vertices_ensure_of_not_mem {name : String} (hid : g.idOf? name = none) :
    (g.ensure name).2.vertices.Perm (⟨(g.ensure name).1, name⟩ :: g.vertices) := by
  simp only [ensure, hid]
  exact placeVertex_perm _ _

/-- A name that is made sure of is a vertex, and no other becomes one. -/
theorem WellFormed.mem_vertices_ensure (h : g.WellFormed) {name : String} {x : Vertex} :
    x ∈ (g.ensure name).2.vertices ↔ x ∈ g.vertices ∨ x = ⟨(g.ensure name).1, name⟩ := by
  cases hid : g.idOf? name with
  | none =>
    rw [(vertices_ensure_of_not_mem hid).mem_iff, List.mem_cons, or_comm]
  | some v =>
    rw [ensure_of_mem hid]
    constructor
    · exact .inl
    · rintro (hx | rfl)
      · exact hx
      · exact h.idOf?_eq_some_iff.1 hid

theorem WellFormed.ensure (h : g.WellFormed) (name : String) : (g.ensure name).2.WellFormed := by
  cases hid : g.idOf? name with
  | some v =>
    rw [ensure_of_mem hid]
    exact h
  | none =>
    have hname := h.idOf?_eq_none_iff.1 hid
    have hperm := vertices_ensure_of_not_mem hid
    have hmem : ∀ v ∈ g.ids, v ∈ (g.ensure name).2.ids := fun v hv => by
      obtain ⟨x, hx, rfl⟩ := mem_ids.1 hv
      exact id_mem_ids (h.mem_vertices_ensure.2 (.inl hx))
    refine ⟨?_, fun n v => ?_, ?_, ?_, ?_, ?_⟩
    · refine (hperm.map Vertex.name).nodup_iff.2 (List.nodup_cons.2 ⟨hname, h.names⟩)
    · have hindex : (g.ensure name).2.index = g.index.insert name (g.ensure name).1 := by simp [Graph.ensure, hid]
      rw [hindex, hperm.mem_iff, List.mem_cons, Vertex.mk.injEq]
      by_cases hn : n = name
      · -- the name had no vertex before
        have hnew : ⟨v, name⟩ ∉ g.vertices := fun hmem => hname (name_mem_names hmem)
        simp [hn, hnew, eq_comm]
      · rw [SortedMap.get?_insert_other _ _ hn, h.index n v]
        simp [hn]
    · refine h.vertexIds.take.of_perm ?_ ?_
      · simp [Graph.ensure, hid]
      · have hfree : (g.ensure name).2.vertexIds = g.vertexIds.take.2 := by simp [Graph.ensure, hid]
        have hnew : (g.ensure name).1 = g.vertexIds.take.1 := by simp [Graph.ensure, hid]
        rw [hfree, ← hnew]
        exact (hperm.map Vertex.id).append_right _
    · have hsame : (g.ensure name).2.edgeIds = g.edgeIds := by simp [Graph.ensure, hid]
      rw [edges_ensure, hsame]
      exact h.edgeIds
    · rw [edges_ensure]
      exact fun e he => hmem _ (h.sources e he)
    · rw [edges_ensure]
      exact fun e he => hmem _ (h.targets e he)

theorem WellFormed.ensure_mem_ids (h : g.WellFormed) (name : String) : (g.ensure name).1 ∈ (g.ensure name).2.ids :=
  id_mem_ids (h.mem_vertices_ensure.2 (.inr rfl))

theorem WellFormed.mem_ids_ensure (h : g.WellFormed) {name : String} {v : Nat} (hv : v ∈ g.ids) :
    v ∈ (g.ensure name).2.ids := by
  obtain ⟨x, hx, rfl⟩ := mem_ids.1 hv
  exact id_mem_ids (h.mem_vertices_ensure.2 (.inl hx))

/-! ## Operations on edges -/

@[simp] theorem vertices_link (g : Graph ω) (s t : Nat) (w : ω) : (g.link s t w).2.vertices = g.vertices := rfl

theorem edges_link (g : Graph ω) (s t : Nat) (w : ω) :
    (g.link s t w).2.edges = ⟨(g.link s t w).1, s, t, w⟩ :: g.edges := rfl

theorem WellFormed.link (h : g.WellFormed) {s t : Nat} (hs : s ∈ g.ids) (ht : t ∈ g.ids) (w : ω) :
    (g.link s t w).2.WellFormed := by
  refine ⟨h.names, h.index, h.vertexIds, h.edgeIds.take, fun e he => ?_, fun e he => ?_⟩
  · rw [edges_link] at he
    rcases List.mem_cons.1 he with rfl | he
    · exact hs
    · exact h.sources e he
  · rw [edges_link] at he
    rcases List.mem_cons.1 he with rfl | he
    · exact ht
    · exact h.targets e he

theorem linkAll_cons (g : Graph ω) (s t : Nat) (w : ω) (new : List (Nat × Nat × ω)) :
    g.linkAll ((s, t, w) :: new) = (g.link s t w).2.linkAll new := rfl

@[simp] theorem vertices_linkAll (g : Graph ω) (new : List (Nat × Nat × ω)) :
    (g.linkAll new).vertices = g.vertices := by
  induction new generalizing g with
  | nil => rfl
  | cons x new ih =>
    obtain ⟨s, t, w⟩ := x
    rw [linkAll_cons, ih, vertices_link]

/-- New edges come before the old ones, the last of them first. -/
theorem edges_linkAll (g : Graph ω) (new : List (Nat × Nat × ω)) :
    ∃ fresh : List (Edge ω), (g.linkAll new).edges = fresh ++ g.edges ∧ fresh.map Edge.content = new.reverse := by
  induction new generalizing g with
  | nil => exact ⟨[], rfl, rfl⟩
  | cons x new ih =>
    obtain ⟨s, t, w⟩ := x
    obtain ⟨fresh, hedges, hcontent⟩ := ih (g.link s t w).2
    refine ⟨fresh ++ [⟨(g.link s t w).1, s, t, w⟩], ?_, ?_⟩
    · rw [linkAll_cons, hedges, edges_link, List.append_assoc]
      rfl
    · rw [List.map_append, hcontent, List.reverse_cons]
      rfl

theorem WellFormed.linkAll (h : g.WellFormed) {new : List (Nat × Nat × ω)}
    (hnew : ∀ x ∈ new, x.1 ∈ g.ids ∧ x.2.1 ∈ g.ids) : (g.linkAll new).WellFormed := by
  induction new generalizing g with
  | nil => exact h
  | cons x new ih =>
    obtain ⟨s, t, w⟩ := x
    have hx := hnew (s, t, w) (by simp)
    rw [linkAll_cons]
    exact ih (h.link hx.1 hx.2 w) fun y hy => hnew y (by simp [hy])

/-! ## Taking away -/

/-- A number that is in use once, and the others. -/
theorem map_perm_cons_filter {α : Type} {f : α → Nat} {xs : List α} {n : Nat} (hnodup : (xs.map f).Nodup)
    (hn : n ∈ xs.map f) : (xs.map f).Perm (n :: (xs.filter (f · != n)).map f) := by
  have hrest : (xs.map f).erase n = (xs.filter (f · != n)).map f := by
    rw [hnodup.erase_eq_filter, List.filter_map]
    rfl
  rw [← hrest]
  exact List.perm_cons_erase hn

theorem WellFormed.removeEdge (h : g.WellFormed) (id : Nat) : (g.removeEdge id).2.WellFormed := by
  unfold Graph.removeEdge
  split
  · exact h
  · rename_i e he
    have hid : e.id = id := by simpa using List.find?_some he
    have hmem : id ∈ g.edges.map (·.id) := List.mem_map.2 ⟨e, List.mem_of_find?_eq_some he, hid⟩
    refine ⟨h.names, h.index, h.vertexIds, ?_, fun e' he' => ?_, fun e' he' => ?_⟩
    · exact h.edgeIds.releaseAll [id] (map_perm_cons_filter h.edgeIds.nodup.of_append_left hmem)
    · exact h.sources e' (List.mem_of_mem_filter he')
    · exact h.targets e' (List.mem_of_mem_filter he')

@[simp] theorem vertices_drop (g : Graph ω) (v : Nat) : (g.drop v).vertices = g.vertices.filter (·.id != v) := rfl

@[simp] theorem edges_drop (g : Graph ω) (v : Nat) :
    (g.drop v).edges = g.edges.filter fun e => e.source != v && e.target != v := rfl

/-- The edges at a vertex and those elsewhere. -/
theorem edges_perm_drop (g : Graph ω) (v : Nat) :
    g.edges.Perm ((g.outOf v ++ (g.into v).filter (·.source != v)) ++ (g.drop v).edges) := by
  have hsource := List.filter_append_perm (·.source == v) g.edges
  have htarget := List.filter_append_perm (·.target == v) (g.edges.filter fun e => !(e.source == v))
  rw [List.filter_filter, List.filter_filter] at htarget
  have hinto : (g.into v).filter (·.source != v) =
      g.edges.filter fun e => e.target == v && !(e.source == v) := by
    unfold into
    rw [List.filter_filter]
    exact List.filter_congr fun e _ => Bool.and_comm _ _
  have helse : (g.drop v).edges = g.edges.filter fun e => !(e.target == v) && !(e.source == v) :=
    List.filter_congr fun e _ => Bool.and_comm _ _
  rw [hinto, helse, List.append_assoc]
  exact hsource.symm.trans (htarget.symm.append_left _)

/-- A vertex that goes takes its name out of the index. -/
theorem WellFormed.get?_indexWithout (h : g.WellFormed) {x : Vertex} (hx : x ∈ g.vertices) (name : String) (v : Nat) :
    (g.indexWithout x.id).get? name = some v ↔ ⟨v, name⟩ ∈ g.vertices ∧ v ≠ x.id := by
  simp only [indexWithout, h.vertex?_of_mem hx]
  by_cases hname : name = x.name
  · rw [hname, SortedMap.get?_erase_self, ← h.index]
    have hsame : g.index.get? x.name = some x.id := (h.index _ _).2 hx
    simp [hsame, eq_comm]
  · rw [SortedMap.get?_erase_other _ hname, h.index]
    refine ⟨fun hmem => ⟨hmem, ?_⟩, And.left⟩
    rintro rfl
    exact hname (congrArg Vertex.name (List.inj_on_of_nodup_map h.ids_nodup hmem hx rfl))

theorem WellFormed.drop (h : g.WellFormed) {v : Nat} (hv : v ∈ g.ids) : (g.drop v).WellFormed := by
  have hids : ∀ w ∈ g.ids, w ≠ v → w ∈ (g.drop v).ids := by
    intro w hw hne
    obtain ⟨x, hx, rfl⟩ := mem_ids.1 hw
    exact id_mem_ids (List.mem_filter.2 ⟨hx, by simpa using hne⟩)
  refine ⟨?_, fun name w => ?_, ?_, ?_, fun e he => ?_, fun e he => ?_⟩
  · exact h.names.sublist (List.filter_sublist.map _)
  · obtain ⟨x, hx, rfl⟩ := mem_ids.1 hv
    rw [vertices_drop, List.mem_filter, bne_iff_ne]
    exact h.get?_indexWithout hx name w
  · exact h.vertexIds.releaseAll [v] (map_perm_cons_filter h.ids_nodup hv)
  · refine h.edgeIds.releaseAll _ ?_
    rw [← List.map_append]
    exact (g.edges_perm_drop v).map _
  · obtain ⟨hmem, hne⟩ := List.mem_filter.1 he
    rw [Bool.and_eq_true, bne_iff_ne, bne_iff_ne] at hne
    exact hids _ (h.sources e hmem) hne.1
  · obtain ⟨hmem, hne⟩ := List.mem_filter.1 he
    rw [Bool.and_eq_true, bne_iff_ne, bne_iff_ne] at hne
    exact hids _ (h.targets e hmem) hne.2

theorem dropAll_cons (g : Graph ω) (v : Nat) (vs : List Nat) : g.dropAll (v :: vs) = (g.drop v).dropAll vs := rfl

theorem vertices_dropAll (g : Graph ω) (vs : List Nat) :
    (g.dropAll vs).vertices = g.vertices.filter (!vs.contains ·.id) := by
  induction vs generalizing g with
  | nil => simp [dropAll]
  | cons v vs ih =>
    rw [dropAll_cons, ih, vertices_drop, List.filter_filter]
    refine List.filter_congr fun x _ => ?_
    simp only [List.contains_cons, Bool.not_or, bne]
    ac_rfl

theorem edges_dropAll (g : Graph ω) (vs : List Nat) :
    (g.dropAll vs).edges = g.edges.filter fun e => !vs.contains e.source && !vs.contains e.target := by
  induction vs generalizing g with
  | nil => simp [dropAll]
  | cons v vs ih =>
    rw [dropAll_cons, ih, edges_drop, List.filter_filter]
    refine List.filter_congr fun e _ => ?_
    simp only [List.contains_cons, Bool.not_or, bne]
    ac_rfl

theorem mem_ids_dropAll {vs : List Nat} {v : Nat} : v ∈ (g.dropAll vs).ids ↔ v ∈ g.ids ∧ v ∉ vs := by
  simp only [mem_ids, vertices_dropAll, List.mem_filter]
  constructor
  · rintro ⟨x, ⟨hx, hvs⟩, rfl⟩
    exact ⟨⟨x, hx, rfl⟩, by simpa using hvs⟩
  · rintro ⟨⟨x, hx, rfl⟩, hvs⟩
    exact ⟨x, ⟨hx, by simpa using hvs⟩, rfl⟩

theorem WellFormed.dropAll (h : g.WellFormed) {vs : List Nat} (hvs : ∀ v ∈ vs, v ∈ g.ids) (hnodup : vs.Nodup) :
    (g.dropAll vs).WellFormed := by
  induction vs generalizing g with
  | nil => exact h
  | cons v vs ih =>
    obtain ⟨hv, hnodup⟩ := List.nodup_cons.1 hnodup
    refine ih (h.drop (hvs v (by simp))) (fun w hw => ?_) hnodup
    have hmem : w ∈ (g.dropAll [v]).ids := mem_ids_dropAll.2 ⟨hvs w (by simp [hw]), by
      rw [List.mem_singleton]
      rintro rfl
      exact hv hw⟩
    exact hmem

/-! ## Contraction and merging -/

theorem WellFormed.linkAll_through (h : g.WellFormed) (merge : EdgeView ω → EdgeView ω → ω) (v : Nat) :
    (g.linkAll (g.through merge v)).WellFormed := by
  refine h.linkAll fun x hx => ?_
  obtain ⟨i, hi, hx⟩ := List.mem_flatMap.1 hx
  obtain ⟨o, ho, rfl⟩ := List.mem_map.1 hx
  exact ⟨h.sources i (List.mem_of_mem_filter hi), h.targets o (List.mem_of_mem_filter ho)⟩

theorem WellFormed.contract (h : g.WellFormed) (merge : EdgeView ω → EdgeView ω → ω) {v : Nat} (hv : v ∈ g.ids) :
    (g.contract merge v).WellFormed := by
  refine (h.linkAll_through merge v).drop ?_
  unfold ids
  rw [vertices_linkAll]
  exact hv

theorem WellFormed.contractNames (h : g.WellFormed) (merge : EdgeView ω → EdgeView ω → ω) (names : List String) :
    (contractNames merge names g).2.WellFormed := by
  induction names generalizing g with
  | nil => exact h
  | cons name names ih =>
    unfold Graph.contractNames
    split
    · exact ih h
    · rename_i v hid
      exact ih (h.contract merge (id_mem_ids (h.idOf?_eq_some_iff.1 hid)))

/-- The vertices of a partition that are there. -/
def memberIds (g : Graph ω) (p : Partition) : List Nat := p.members.filterMap g.idOf?

theorem WellFormed.mem_memberIds (h : g.WellFormed) {p : Partition} {v : Nat} :
    v ∈ g.memberIds p ↔ v ∈ g.ids ∧ g.nameOf v ∈ p.members := by
  unfold memberIds
  rw [List.mem_filterMap]
  constructor
  · rintro ⟨name, hname, hid⟩
    have hmem := h.idOf?_eq_some_iff.1 hid
    rw [h.nameOf_of_mem hmem]
    exact ⟨id_mem_ids hmem, hname⟩
  · rintro ⟨hv, hname⟩
    exact ⟨_, hname, h.idOf?_eq_some_iff.2 (h.mem_vertices hv)⟩

theorem WellFormed.memberIds_nodup (h : g.WellFormed) {p : Partition} (hp : p.members.Nodup) :
    (g.memberIds p).Nodup := by
  refine List.Nodup.filterMap (fun a b v ha hb => ?_) hp
  have ha := h.nameOf_of_mem (h.idOf?_eq_some_iff.1 ha)
  have hb := h.nameOf_of_mem (h.idOf?_eq_some_iff.1 hb)
  exact ha.symm.trans hb

/-- The graph without the members of a partition, and with its key. -/
def cleared (g : Graph ω) (p : Partition) : Graph ω := ((g.dropAll (g.memberIds p)).ensure p.key).2

/-- The vertex that a partition becomes. -/
def mergedId (g : Graph ω) (p : Partition) : Nat := ((g.dropAll (g.memberIds p)).ensure p.key).1

/-- The edges that a partition's vertex gets. -/
def mergedEdges (g : Graph ω) (how : Redirect ω) (p : Partition) : List (Nat × Nat × ω) :=
  ((g.memberIds p).flatMap (g.redirected how p.key (g.memberIds p))).map fun (s, t, w) =>
    (s.getD (g.mergedId p), t.getD (g.mergedId p), w)

theorem mergePartition_eq (g : Graph ω) (how : Redirect ω) (p : Partition) :
    g.mergePartition how p = (g.cleared p).linkAll (g.mergedEdges how p) := rfl

theorem WellFormed.dropMembers (h : g.WellFormed) {p : Partition} (hp : p.members.Nodup) :
    (g.dropAll (g.memberIds p)).WellFormed :=
  h.dropAll (fun _ hv => (h.mem_memberIds.1 hv).1) (h.memberIds_nodup hp)

theorem WellFormed.cleared (h : g.WellFormed) {p : Partition} (hp : p.members.Nodup) : (g.cleared p).WellFormed :=
  (h.dropMembers hp).ensure p.key

theorem WellFormed.mem_ids_cleared (h : g.WellFormed) {p : Partition} (hp : p.members.Nodup) {v : Nat}
    (hv : v ∈ g.ids) (hmember : v ∉ g.memberIds p) : v ∈ (g.cleared p).ids :=
  (h.dropMembers hp).mem_ids_ensure (mem_ids_dropAll.2 ⟨hv, hmember⟩)

theorem WellFormed.mergePartition (h : g.WellFormed) (how : Redirect ω) {p : Partition} (hp : p.members.Nodup) :
    (g.mergePartition how p).WellFormed := by
  rw [mergePartition_eq]
  refine (h.cleared hp).linkAll fun x hx => ?_
  have hmerged : g.mergedId p ∈ (g.cleared p).ids := (h.dropMembers hp).ensure_mem_ids p.key
  simp only [mergedEdges, redirected, List.mem_map, List.mem_flatMap, List.mem_append] at hx
  obtain ⟨x, ⟨v, -, hx⟩, rfl⟩ := hx
  rcases hx with ⟨e, he, rfl⟩ | ⟨e, he, rfl⟩
  · obtain ⟨he, hmember⟩ := List.mem_filter.1 he
    exact ⟨h.mem_ids_cleared hp (h.sources e (List.mem_of_mem_filter he)) (by simpa using hmember), hmerged⟩
  · obtain ⟨he, hmember⟩ := List.mem_filter.1 he
    exact ⟨hmerged, h.mem_ids_cleared hp (h.targets e (List.mem_of_mem_filter he)) (by simpa using hmember)⟩

/-- A partition of distinct names holds distinct names. -/
theorem Partitioned.members_nodup {keyOf : String → String} {names : List String} {ps : List Partition}
    (h : Partitioned keyOf names ps) (hnames : names.Nodup) {p : Partition} (hp : p ∈ ps) : p.members.Nodup := by
  rw [h.members p hp]
  exact hnames.filter _

theorem WellFormed.mergePartitions (h : g.WellFormed) (how : Redirect ω) {ps : List Partition}
    (hps : ∀ p ∈ ps, p.members.Nodup) : (ps.foldl (·.mergePartition how ·) g).WellFormed := by
  induction ps generalizing g with
  | nil => exact h
  | cons p ps ih => exact ih (h.mergePartition how (hps p (by simp))) fun q hq => hps q (by simp [hq])

theorem WellFormed.mergeByKey (h : g.WellFormed) (keyOf : String → String) (how : Redirect ω) :
    (g.mergeByKey keyOf how).WellFormed := by
  refine h.mergePartitions how fun p hp => ?_
  exact (partitioned_partitions keyOf g.names).members_nodup h.names (List.mem_of_mem_filter hp)

/-! ## Graphs made by operations -/

theorem wellFormed_empty : (empty : Graph ω).WellFormed :=
  ⟨List.nodup_nil, by simp [empty], IdPool.fits_nil, IdPool.fits_nil, by simp [empty], by simp [empty]⟩

theorem WellFormed.addEdge (h : g.WellFormed) (source target : String) (w : ω) :
    (g.addEdge source target w).2.WellFormed := by
  have hs := h.ensure source
  have ht := hs.ensure target
  exact ht.link (hs.mem_ids_ensure (h.ensure_mem_ids source)) (hs.ensure_mem_ids target) w

theorem WellFormed.cutNonReachable (h : g.WellFormed) (sources : List String) :
    (g.cutNonReachable sources).WellFormed :=
  h.dropAll (fun _ hv => List.mem_of_mem_filter hv) (h.ids_nodup.filter _)

/-- A name that is required is a vertex. -/
theorem WellFormed.mem_ids_of_require (h : g.WellFormed) {name : String} {v : Nat} (hv : g.require name = .ok v) :
    v ∈ g.ids := by
  unfold require at hv
  split at hv
  · rename_i w hid
    obtain rfl := Except.ok.inj hv
    exact id_mem_ids (h.idOf?_eq_some_iff.1 hid)
  · cases hv

/-- A graph that operations made of the empty one. -/
inductive Built : Graph ω → Prop
  | empty : Built empty
  | addVertex {g : Graph ω} (h : Built g) (name : String) : Built (g.addVertex name).2
  | addEdge {g : Graph ω} (h : Built g) (source target : String) (w : ω) : Built (g.addEdge source target w).2
  | removeVertex {g g' : Graph ω} (h : Built g) {name : String} (hok : g.removeVertex name = .ok g') : Built g'
  | removeEdge {g : Graph ω} (h : Built g) (id : Nat) : Built (g.removeEdge id).2
  | contractVertex {g g' : Graph ω} (h : Built g) {merge : EdgeView ω → EdgeView ω → ω} {name : String}
      (hok : g.contractVertex merge name = .ok g') : Built g'
  | contractVertices {g : Graph ω} (h : Built g) (chosen : String → Bool) (merge : EdgeView ω → EdgeView ω → ω) :
      Built (g.contractVertices chosen merge).2
  | mergeByKey {g : Graph ω} (h : Built g) (keyOf : String → String) (how : Redirect ω) :
      Built (g.mergeByKey keyOf how)
  | cutNonReachable {g : Graph ω} (h : Built g) (sources : List String) : Built (g.cutNonReachable sources)

/-- Whatever operations make is well formed. -/
theorem Built.wellFormed (h : g.Built) : g.WellFormed := by
  induction h with
  | empty => exact wellFormed_empty
  | addVertex _ name ih => exact ih.ensure name
  | addEdge _ source target w ih => exact ih.addEdge source target w
  | @removeVertex g g' _ name hok ih =>
    cases hv : g.require name with
    | error e => simp [Graph.removeVertex, hv, bind, Except.bind] at hok
    | ok v =>
      simp only [Graph.removeVertex, hv, bind, Except.bind, pure, Except.pure, Except.ok.injEq] at hok
      rw [← hok]
      exact ih.drop (ih.mem_ids_of_require hv)
  | removeEdge _ id ih => exact ih.removeEdge id
  | @contractVertex g g' _ merge name hok ih =>
    cases hv : g.require name with
    | error e => simp [Graph.contractVertex, hv, bind, Except.bind] at hok
    | ok v =>
      simp only [Graph.contractVertex, hv, bind, Except.bind, pure, Except.pure, Except.ok.injEq] at hok
      rw [← hok]
      exact ih.contract merge (ih.mem_ids_of_require hv)
  | contractVertices _ chosen merge ih => exact ih.contractNames merge _
  | mergeByKey _ keyOf how ih => exact ih.mergeByKey keyOf how
  | cutNonReachable _ sources ih => exact ih.cutNonReachable sources

/-- **Names and vertices answer to each other.** Whatever operations made a graph:
- each vertex is found in the index under its name, and what is found under a name is a vertex of that name,
so names are distinct;
- edges run between vertices;
- the number that comes next is none of a vertex. -/
theorem index_of_built (hg : g.Built) :
    ((∀ v ∈ g.ids, g.index.get? (g.nameOf v) = some v) ∧
      (∀ name v, g.index.get? name = some v → v ∈ g.ids ∧ g.nameOf v = name) ∧ g.names.Nodup) ∧
      (∀ e ∈ g.edges, e.source ∈ g.ids ∧ e.target ∈ g.ids) ∧ g.vertexIds.take.1 ∉ g.ids := by
  have h := hg.wellFormed
  refine ⟨⟨fun v hv => ?_, fun name v hfound => ?_, h.names⟩, fun e he => ?_, h.vertexIds.take_not_mem⟩
  · exact (h.index _ _).2 (h.mem_vertices hv)
  · have hmem := (h.index name v).1 hfound
    exact ⟨id_mem_ids hmem, h.nameOf_of_mem hmem⟩
  · exact ⟨h.sources e he, h.targets e he⟩

/-- Names that come and go: `B` is contracted, `D` takes its number, and `A` and `D` are merged under the name
of one of them. -/
def comings : Graph Nat :=
  let g := (empty.addEdge "A" "B" 1).2
  let g := (g.addEdge "B" "C" 2).2
  let g := (g.contractVertices (· == "B") fun i o => i.weight + o.weight).2
  let g := (g.addEdge "D" "A" 3).2
  g.mergeByKey (fun name => if name = "A" then "D" else name) ⟨fun e _ => e.weight, fun _ e => e.weight⟩

theorem built_comings : comings.Built :=
  .mergeByKey (.addEdge (.contractVertices (.addEdge (.addEdge .empty _ _ _) _ _ _) _ _) _ _ _) _ _

theorem index_of_built_comings :
    comings.names = ["D", "C"] ∧ comings.index.get? "D" = some 1 ∧ comings.nameOf 1 = "D" ∧
      comings.index.get? "A" = none ∧ comings.index.get? "B" = none ∧
      ∃ e ∈ comings.edges, comings.nameOf e.source = "D" ∧ comings.index.get? "D" = some e.source := by
  obtain ⟨⟨hfound, hname, -⟩, hends, -⟩ := index_of_built built_comings
  have hnames : comings.names = ["D", "C"] := by decide +kernel
  have hD : comings.index.get? "D" = some 1 := by decide +kernel
  have hgone : comings.index.get? "A" = none ∧ comings.index.get? "B" = none := by decide +kernel
  have hedge : ∃ e ∈ comings.edges, comings.nameOf e.source = "D" := by decide +kernel
  obtain ⟨e, he, hsource⟩ := hedge
  refine ⟨hnames, hD, (hname _ _ hD).2, hgone.1, hgone.2, e, he, hsource, ?_⟩
  rw [← hsource]
  exact hfound _ (hends e he).1

/-! ## Graphs made anew -/

theorem Built.foldl {α : Type} {f : Graph ω → α → Graph ω} (hf : ∀ g x, g.Built → (f g x).Built) (h : g.Built)
    (xs : List α) : (xs.foldl f g).Built := by
  induction xs generalizing g with
  | nil => exact h
  | cons x xs ih => exact ih (hf g x h)

theorem Built.addVertices (h : g.Built) (names : List String) : (g.addVertices names).Built :=
  h.foldl (fun _ name hg => hg.addVertex name) names

theorem built_connectedOut (g : Graph ω) (sources : List String) : (g.connectedOut sources).Built :=
  (Built.empty.addVertices _).foldl (fun _ _ h => h.addEdge _ _ _) _

theorem built_project {ψ : Type} (g : Graph ω) (wanted : List String) (weigh : String → String → ψ) :
    (g.project wanted weigh).Built :=
  (Built.empty.addVertices _).foldl (fun _ _ h => h.foldl (fun _ _ h => h.addEdge _ _ _) _) _

theorem built_unionOfShortestPaths {γ : Type} [Cost γ] {costOf : EdgeView ω → γ} {sources targets : List String}
    {g' : Graph ω} (h : g.unionOfShortestPaths costOf sources targets = .ok g') : g'.Built := by
  unfold unionOfShortestPaths at h
  cases hpaths : g.pathsBetween costOf sources targets with
  | error e => simp [hpaths, bind, Except.bind] at h
  | ok paths =>
    simp only [hpaths, bind, Except.bind, pure, Except.pure, Except.ok.injEq] at h
    rw [← h]
    exact Built.empty.foldl (fun _ _ h => h.addEdge _ _ _) _

theorem built_build (entries : List TypeDef) (rs : List Relation) : (DependencyGraph.build entries rs).Built :=
  (Built.empty.foldl (fun _ _ h => h.addVertex _) _).foldl (fun _ _ h => h.addEdge _ _ _) _

end Graph

end Coupling
