/-
Graphs put together from names and edges.

New names that are added where no number was given back stand at the end, in the
order in which they came. So as long as nothing is taken away, the names are those
that were added, with the ends of edges, each where it came first
(`Grown.names_addVertices`, `Grown.names_addEdges`). Edges have the ends and weights
they were given (`contents_addEdges`), and are listed as they came (`Grown.edgeViews_eq`).
-/
import Coupling.Proofs.Graph.WellFormed

namespace Coupling

/-- The ends and the weight of an edge, by name. -/
def EdgeView.content {ω : Type} (e : EdgeView ω) : String × String × ω := (e.source, e.target, e.weight)

theorem IdPool.take_of_free_nil {p : IdPool} (hfree : p.free = []) :
    p.take = (p.bound, { p with bound := p.bound + 1 }) := by
  simp [IdPool.take, hfree]

namespace Graph

variable {ω : Type} {g : Graph ω}

/-! ## Edges -/

/-- A new name changes no edge. -/
theorem WellFormed.views_ensure (h : g.WellFormed) (name : String) : (g.ensure name).2.views = g.views := by
  have hname : ∀ v ∈ g.ids, (g.ensure name).2.nameOf v = g.nameOf v := fun v hv =>
    (h.ensure name).nameOf_of_mem (h.mem_vertices_ensure.2 (.inl (h.mem_vertices hv)))
  unfold views
  rw [edges_ensure]
  refine List.map_congr_left fun e he => ?_
  simp only [view, hname _ (h.sources e he), hname _ (h.targets e he)]

/-- The new edge is in front. -/
theorem WellFormed.views_addEdge (h : g.WellFormed) (source target : String) (w : ω) :
    (g.addEdge source target w).2.views = ⟨(g.addEdge source target w).1, source, target, w⟩ :: g.views := by
  have hboth := (h.ensure source).ensure target
  have hsource : ⟨(g.ensure source).1, source⟩ ∈ ((g.ensure source).2.ensure target).2.vertices :=
    (h.ensure source).mem_vertices_ensure.2 (.inl (h.mem_vertices_ensure.2 (.inr rfl)))
  have htarget : ⟨((g.ensure source).2.ensure target).1, target⟩ ∈ ((g.ensure source).2.ensure target).2.vertices :=
    (h.ensure source).mem_vertices_ensure.2 (.inr rfl)
  have hold : ((g.ensure source).2.ensure target).2.views = g.views := by
    rw [(h.ensure source).views_ensure, h.views_ensure]
  rw [← hold]
  unfold views
  have hview : (g.addEdge source target w).2.view = ((g.ensure source).2.ensure target).2.view := rfl
  have hedges : (g.addEdge source target w).2.edges =
      ⟨(g.addEdge source target w).1, (g.ensure source).1, ((g.ensure source).2.ensure target).1, w⟩ ::
        ((g.ensure source).2.ensure target).2.edges := rfl
  rw [hview, hedges, List.map_cons]
  simp only [view, hboth.nameOf_of_mem hsource, hboth.nameOf_of_mem htarget]

theorem edgesById_perm (g : Graph ω) : g.edgesById.Perm g.edges := List.mergeSort_perm _ _

theorem pairwise_edgesById (g : Graph ω) : g.edgesById.Pairwise fun a b => a.id ≤ b.id := by
  have hsorted : g.edgesById.Pairwise fun a b => (decide (a.id ≤ b.id)) = true :=
    List.pairwise_mergeSort (by simp; omega) (by simp; omega) g.edges
  exact hsorted.imp of_decide_eq_true

/-- There is one way to list the edges by number, as numbers tell edges apart. -/
theorem WellFormed.edgesById_eq (h : g.WellFormed) {es : List (Edge ω)} (hperm : es.Perm g.edges)
    (hsorted : es.Pairwise fun a b => a.id ≤ b.id) : g.edgesById = es := by
  refine List.Perm.eq_of_pairwise (fun a b ha hb hab hba => ?_) g.pairwise_edgesById hsorted
    (g.edgesById_perm.trans hperm.symm)
  exact List.inj_on_of_nodup_map h.edgeIds.nodup.of_append_left (g.edgesById_perm.subset ha) (hperm.subset hb)
    (Nat.le_antisymm hab hba)

/-- Adds edges between names one after the other. -/
def addEdges (g : Graph ω) (new : List (String × String × ω)) : Graph ω :=
  new.foldl (fun g z => (g.addEdge z.1 z.2.1 z.2.2).2) g

theorem addEdges_cons (g : Graph ω) (z : String × String × ω) (new : List (String × String × ω)) :
    g.addEdges (z :: new) = (g.addEdge z.1 z.2.1 z.2.2).2.addEdges new := rfl

/-- Edges have the ends and weights they were given, the last of them first. -/
theorem WellFormed.contents_addEdges (h : g.WellFormed) (new : List (String × String × ω)) :
    (g.addEdges new).views.map EdgeView.content = new.reverse ++ g.views.map EdgeView.content := by
  induction new generalizing g with
  | nil => rfl
  | cons z new ih =>
    rw [addEdges_cons, ih (h.addEdge z.1 z.2.1 z.2.2), h.views_addEdge, List.reverse_cons, List.append_assoc]
    rfl

@[simp] theorem edges_addVertices (g : Graph ω) (names : List String) : (g.addVertices names).edges = g.edges := by
  induction names generalizing g with
  | nil => rfl
  | cons name names ih => exact (ih _).trans (g.edges_ensure name)

/-- Edges between names that are vertices change no name. -/
theorem WellFormed.names_addEdges_of_mem (h : g.WellFormed) {new : List (String × String × ω)}
    (hnew : ∀ z ∈ new, z.1 ∈ g.names ∧ z.2.1 ∈ g.names) : (g.addEdges new).names = g.names := by
  induction new generalizing g with
  | nil => rfl
  | cons z new ih =>
    obtain ⟨hs, ht⟩ := hnew z (by simp)
    obtain ⟨x, hx, hxname⟩ := mem_names.1 hs
    obtain ⟨y, hy, hyname⟩ := mem_names.1 ht
    have hnames : (g.addEdge z.1 z.2.1 z.2.2).2.names = g.names := by
      rw [← hxname, ← hyname]
      unfold Graph.addEdge
      simp only [ensure_of_mem (h.idOf?_eq_some_iff.2 hx), ensure_of_mem (h.idOf?_eq_some_iff.2 hy)]
      rfl
    rw [addEdges_cons, ih (h.addEdge z.1 z.2.1 z.2.2) fun y hy => hnames ▸ hnew y (by simp [hy]), hnames]

/-! ## Where nothing was taken away -/

/-- No number was given back, so that a later edge has a higher one. -/
structure Grown (g : Graph ω) : Prop where
  wellFormed : g.WellFormed
  vertexIds : g.vertexIds.free = []
  edgeIds : g.edgeIds.free = []
  edges : g.edges.Pairwise fun a b => b.id < a.id

theorem grown_empty : (empty : Graph ω).Grown := ⟨wellFormed_empty, rfl, rfl, .nil⟩

theorem placeVertex_of_lt {x : Vertex} {ys : List Vertex} (hlt : ∀ y ∈ ys, y.id < x.id) :
    placeVertex x ys = ys ++ [x] := by
  induction ys with
  | nil => rfl
  | cons y ys ih =>
    have hy := hlt y (by simp)
    unfold placeVertex
    rw [if_neg (by omega), ih fun z hz => hlt z (by simp [hz])]
    rfl

/-- A name that is new comes last. -/
theorem Grown.ensure_of_not_mem (h : g.Grown) {name : String} (hname : name ∉ g.names) :
    (g.ensure name).2.names = g.names ++ [name] ∧ (g.ensure name).2.Grown := by
  have hid := h.wellFormed.idOf?_eq_none_iff.2 hname
  have htake := IdPool.take_of_free_nil h.vertexIds
  have hlast : placeVertex ⟨g.vertexIds.bound, name⟩ g.vertices = g.vertices ++ [⟨g.vertexIds.bound, name⟩] :=
    placeVertex_of_lt fun y hy => h.wellFormed.vertexIds.below y.id (List.mem_append_left _ (id_mem_ids hy))
  have hgrown := h.wellFormed.ensure name
  simp only [Graph.ensure, hid, htake] at hgrown ⊢
  refine ⟨?_, hgrown, h.vertexIds, h.edgeIds, h.edges⟩
  simp only [Graph.names, hlast, List.map_append]
  rfl

theorem Grown.ensure (h : g.Grown) (name : String) : (g.ensure name).2.Grown := by
  by_cases hname : name ∈ g.names
  · obtain ⟨x, hx, rfl⟩ := mem_names.1 hname
    rw [ensure_of_mem (h.wellFormed.idOf?_eq_some_iff.2 hx)]
    exact h
  · exact (h.ensure_of_not_mem hname).2

theorem Grown.addEdge (h : g.Grown) (source target : String) (w : ω) : (g.addEdge source target w).2.Grown := by
  have hboth := (h.ensure source).ensure target
  have htake := IdPool.take_of_free_nil hboth.edgeIds
  have hwell := h.wellFormed.addEdge source target w
  unfold Graph.addEdge Graph.link at hwell ⊢
  simp only [htake] at hwell ⊢
  refine ⟨hwell, hboth.vertexIds, hboth.edgeIds, List.pairwise_cons.2 ⟨fun e he => ?_, hboth.edges⟩⟩
  exact hboth.wellFormed.edgeIds.below e.id (List.mem_append_left _ (List.mem_map_of_mem he))

theorem Grown.addVertices (h : g.Grown) (names : List String) : (g.addVertices names).Grown := by
  induction names generalizing g with
  | nil => exact h
  | cons name names ih => exact ih (h.ensure name)

theorem Grown.addEdges (h : g.Grown) (new : List (String × String × ω)) : (g.addEdges new).Grown := by
  induction new generalizing g with
  | nil => exact h
  | cons z new ih => exact ih (h.addEdge z.1 z.2.1 z.2.2)

/-- Where nothing was taken away, edges are listed as they came. -/
theorem Grown.edgeViews_eq (h : g.Grown) : g.edgeViews = g.views.reverse := by
  have hcame : g.edges.reverse.Pairwise fun a b => a.id ≤ b.id :=
    (List.pairwise_reverse.2 h.edges).imp Nat.le_of_lt
  rw [edgeViews, h.wellFormed.edgesById_eq g.edges.reverse_perm hcame, views, List.map_reverse]

section Names

variable {names : List String}

theorem Grown.names_ensure (h : g.Grown) (hnames : g.names = names.eraseDups) (name : String) :
    (g.ensure name).2.names = (names ++ [name]).eraseDups := by
  rw [eraseDups_concat, ← hnames]
  by_cases hname : name ∈ names
  · have hmem : name ∈ g.names := hnames ▸ List.mem_eraseDups.2 hname
    obtain ⟨x, hx, rfl⟩ := mem_names.1 hmem
    rw [ensure_of_mem (h.wellFormed.idOf?_eq_some_iff.2 hx), if_pos hname]
  · rw [if_neg hname]
    exact (h.ensure_of_not_mem fun hmem => hname (List.mem_eraseDups.1 (hnames ▸ hmem))).1

/-- Names are there in the order in which they came first. -/
theorem Grown.names_addVertices (h : g.Grown) (hnames : g.names = names.eraseDups) (new : List String) :
    (g.addVertices new).names = (names ++ new).eraseDups := by
  induction new generalizing g names with
  | nil => rw [List.append_nil, ← hnames]; rfl
  | cons name new ih =>
    have hstep := ih (h.ensure name) (h.names_ensure hnames name)
    rw [List.append_assoc] at hstep
    exact hstep

theorem names_addVertices_empty (new : List String) :
    (empty.addVertices new : Graph ω).names = new.eraseDups := by
  have hnone : (empty : Graph ω).names = ([] : List String).eraseDups := rfl
  exact grown_empty.names_addVertices hnone new

/-- The source and then the target of each edge are there after the names that were. -/
theorem Grown.names_addEdges (h : g.Grown) (hnames : g.names = names.eraseDups) (new : List (String × String × ω)) :
    (g.addEdges new).names = (names ++ new.flatMap fun z => [z.1, z.2.1]).eraseDups := by
  induction new generalizing g names with
  | nil => rw [List.flatMap_nil, List.append_nil, ← hnames]; rfl
  | cons z new ih =>
    have hsource := h.names_ensure hnames z.1
    have htarget := (h.ensure z.1).names_ensure hsource z.2.1
    have hstep := ih (h.addEdge z.1 z.2.1 z.2.2) htarget
    rw [List.append_assoc, List.append_assoc] at hstep
    exact hstep

end Names

end Graph

end Coupling
