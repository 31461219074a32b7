/-
The part of a graph that can be reached.

Taking away what cannot be reached leaves all other vertices and edges as they are, with
their numbers (`WellFormed.edgeViews_cutNonReachable`). A copy gives them new numbers, in
the same order (`WellFormed.contents_connectedOut`). What an edge leads to can be reached
if its source can, so an edge stays if its source does.
-/
import Coupling.Proofs.Graph.Assembly
import Coupling.Proofs.Graph.Reachability

open Relation (ReflTransGen)

namespace Coupling.Graph

variable {ω : Type} {g : Graph ω} {sources : List String}

/-! ## What can be reached -/

theorem target_mem_reachableIds {e : Edge ω} (he : e ∈ g.edges) (hsource : e.source ∈ g.reachableIds sources) :
    e.target ∈ g.reachableIds sources := by
  obtain ⟨v, hv, hway⟩ := mem_reachableIds.1 hsource
  exact mem_reachableIds.2 ⟨v, hv, hway.tail (mem_successors.2 ⟨e, he, rfl, rfl⟩)⟩

/-- An edge has both ends there if it has its source. -/
theorem contains_ends {e : Edge ω} (he : e ∈ g.edges) :
    ((g.reachableIds sources).contains e.source && (g.reachableIds sources).contains e.target) =
      (g.reachableIds sources).contains e.source := by
  rw [Bool.and_eq_left_iff_imp, List.contains_iff_mem, List.contains_iff_mem]
  exact target_mem_reachableIds he

theorem reachable_sublist (g : Graph ω) (sources : List String) : (g.reachable sources).Sublist g.names :=
  List.filter_sublist.map _

theorem WellFormed.nameOf_mem_reachable (h : g.WellFormed) {v : Nat} (hv : v ∈ g.ids) :
    g.nameOf v ∈ g.reachable sources ↔ v ∈ g.reachableIds sources := by
  simp only [reachable, List.mem_map, List.mem_filter, List.contains_iff_mem]
  constructor
  · rintro ⟨x, ⟨hx, hreached⟩, hname⟩
    rwa [(h.name_eq_iff hx (h.mem_vertices hv)).1 hname] at hreached
  · exact fun hreached => ⟨_, ⟨h.mem_vertices hv, hreached⟩, rfl⟩

/-- The edges out of names that can be reached. -/
def reachableViews (g : Graph ω) (sources : List String) (es : List (EdgeView ω)) : List (EdgeView ω) :=
  es.filter ((g.reachable sources).contains ·.source)

/-- Edges are chosen by the numbers of their sources as by the names. -/
theorem WellFormed.reachableViews_map (h : g.WellFormed) {es : List (Edge ω)} (hes : ∀ e ∈ es, e ∈ g.edges) :
    g.reachableViews sources (es.map g.view) =
      (es.filter ((g.reachableIds sources).contains ·.source)).map g.view := by
  rw [reachableViews, List.filter_map]
  congr 1
  refine List.filter_congr fun e he => Bool.eq_iff_iff.2 ?_
  rw [List.contains_iff_mem, Function.comp_apply, List.contains_iff_mem]
  exact h.nameOf_mem_reachable (h.sources e (hes e he))

theorem WellFormed.target_mem_reachable (h : g.WellFormed) {e : EdgeView ω} (he : e ∈ g.views)
    (hsource : e.source ∈ g.reachable sources) : e.target ∈ g.reachable sources := by
  obtain ⟨e', he', rfl⟩ := List.mem_map.1 he
  have hreached := (h.nameOf_mem_reachable (h.sources e' he')).1 hsource
  exact (h.nameOf_mem_reachable (h.targets e' he')).2 (target_mem_reachableIds he' hreached)

/-! ## Taking away the rest -/

/-- Of the vertices, those are not taken away that can be reached. -/
theorem not_contains_unreached {v : Nat} (hv : v ∈ g.ids) {reached : List Nat} :
    (!((g.vertices.map (·.id)).filter (!reached.contains ·)).contains v) = reached.contains v := by
  have hmem : v ∈ g.vertices.map (·.id) := hv
  rw [Bool.eq_iff_iff, Bool.not_eq_true', ← Bool.not_eq_true, List.contains_iff_mem, List.mem_filter]
  simp [hmem]

theorem vertices_cutNonReachable (g : Graph ω) (sources : List String) :
    (g.cutNonReachable sources).vertices = g.vertices.filter ((g.reachableIds sources).contains ·.id) := by
  unfold cutNonReachable
  rw [vertices_dropAll]
  exact List.filter_congr fun x hx => not_contains_unreached (id_mem_ids hx)

theorem names_cutNonReachable (g : Graph ω) (sources : List String) :
    (g.cutNonReachable sources).names = g.reachable sources := by
  rw [names, vertices_cutNonReachable, reachable]

theorem WellFormed.edges_cutNonReachable (h : g.WellFormed) (sources : List String) :
    (g.cutNonReachable sources).edges = g.edges.filter ((g.reachableIds sources).contains ·.source) := by
  unfold Graph.cutNonReachable
  rw [edges_dropAll]
  refine List.filter_congr fun e he => ?_
  rw [not_contains_unreached (h.sources e he), not_contains_unreached (h.targets e he), contains_ends he]

/-- What stays of the edges is seen as it was. -/
theorem WellFormed.map_view_cutNonReachable (h : g.WellFormed) {es : List (Edge ω)}
    (hes : ∀ e ∈ es, e ∈ (g.cutNonReachable sources).edges) :
    es.map (g.cutNonReachable sources).view = es.map g.view := by
  have hcut := h.cutNonReachable sources
  have hname : ∀ v ∈ (g.cutNonReachable sources).ids, (g.cutNonReachable sources).nameOf v = g.nameOf v := by
    intro v hv
    have hmem := hcut.mem_vertices hv
    rw [vertices_cutNonReachable] at hmem
    exact (h.nameOf_of_mem (List.mem_of_mem_filter hmem)).symm
  refine List.map_congr_left fun e he => ?_
  simp only [view, hname _ (hcut.sources e (hes e he)), hname _ (hcut.targets e (hes e he))]

theorem WellFormed.views_cutNonReachable (h : g.WellFormed) (sources : List String) :
    (g.cutNonReachable sources).views = g.reachableViews sources g.views := by
  rw [views, h.map_view_cutNonReachable fun e he => he, h.edges_cutNonReachable, views,
    h.reachableViews_map fun e he => he]

/-- The edges that stay are listed in the order in which they were. -/
theorem WellFormed.edgeViews_cutNonReachable (h : g.WellFormed) (sources : List String) :
    (g.cutNonReachable sources).edgeViews = g.reachableViews sources g.edgeViews := by
  have hperm : (g.edgesById.filter ((g.reachableIds sources).contains ·.source)).Perm
      (g.cutNonReachable sources).edges := by
    rw [h.edges_cutNonReachable]
    exact g.edgesById_perm.filter _
  have hlisted := (h.cutNonReachable sources).edgesById_eq hperm (g.pairwise_edgesById.filter _)
  rw [edgeViews, hlisted, h.map_view_cutNonReachable fun e he => hperm.subset he, edgeViews,
    h.reachableViews_map fun e he => g.edgesById_perm.subset he]

/-! ## Copying it -/

/-- A copy is put together from the names and then the edges. -/
theorem WellFormed.connectedOut_eq (h : g.WellFormed) (sources : List String) :
    g.connectedOut sources = (empty.addVertices (g.reachable sources)).addEdges
      ((g.reachableViews sources g.edgeViews).map EdgeView.content) := by
  have hkept : (g.edgesById.filter fun e => (g.reachableIds sources).contains e.source &&
      (g.reachableIds sources).contains e.target) =
        g.edgesById.filter ((g.reachableIds sources).contains ·.source) :=
    List.filter_congr fun e he => contains_ends (g.edgesById_perm.subset he)
  rw [edgeViews, h.reachableViews_map fun e he => g.edgesById_perm.subset he, connectedOut, hkept, addEdges,
    List.foldl_map, List.foldl_map]
  rfl

theorem WellFormed.grown_connectedOut (h : g.WellFormed) (sources : List String) : (g.connectedOut sources).Grown := by
  rw [h.connectedOut_eq]
  exact (grown_empty.addVertices _).addEdges _

theorem WellFormed.names_connectedOut (h : g.WellFormed) (sources : List String) :
    (g.connectedOut sources).names = g.reachable sources := by
  have hnames : (empty.addVertices (g.reachable sources) : Graph ω).names = g.reachable sources := by
    rw [names_addVertices_empty, eraseDups_of_nodup (h.names.sublist (g.reachable_sublist sources))]
  rw [h.connectedOut_eq, (grown_empty.addVertices _).wellFormed.names_addEdges_of_mem ?_, hnames]
  intro z hz
  obtain ⟨e, he, rfl⟩ := List.mem_map.1 hz
  obtain ⟨he, hsource⟩ := List.mem_filter.1 he
  rw [List.contains_iff_mem] at hsource
  rw [hnames]
  exact ⟨hsource, h.target_mem_reachable (g.edgeViews_perm.subset he) hsource⟩

/-- The edges of a copy are listed as those they were made of. -/
theorem WellFormed.contents_connectedOut (h : g.WellFormed) (sources : List String) :
    (g.connectedOut sources).edgeViews.map EdgeView.content =
      (g.reachableViews sources g.edgeViews).map EdgeView.content := by
  have hnone : (empty.addVertices (g.reachable sources) : Graph ω).views = [] := by
    rw [views, edges_addVertices]
    rfl
  rw [(h.grown_connectedOut sources).edgeViews_eq, List.map_reverse, h.connectedOut_eq,
    (grown_empty.addVertices _).wellFormed.contents_addEdges, hnone, List.map_nil, List.append_nil,
    List.reverse_reverse]

/-! ## Both -/

/-- Graphs that list the same edges have the same out of each name. -/
theorem WellFormed.outEdges_perm_of_contents {g' : Graph ω} (h : g.WellFormed) (h' : g'.WellFormed)
    (hcontents : (g.views.map EdgeView.content).Perm (g'.views.map EdgeView.content)) (name : String) :
    ((g.outEdges name).map EdgeView.content).Perm ((g'.outEdges name).map EdgeView.content) := by
  have hfilter (es : List (EdgeView ω)) : (es.filter (·.source == name)).map EdgeView.content =
      (es.map EdgeView.content).filter (·.1 == name) := by
    rw [List.filter_map]
    rfl
  rw [h.outEdges_eq, h'.outEdges_eq, hfilter, hfilter]
  exact hcontents.filter _

/-- A name that can be reached keeps its edges. -/
theorem WellFormed.outEdges_cutNonReachable (h : g.WellFormed) {name : String}
    (hname : name ∈ g.reachable sources) : (g.cutNonReachable sources).outEdges name = g.outEdges name := by
  rw [(h.cutNonReachable sources).outEdges_eq, h.outEdges_eq, h.views_cutNonReachable, reachableViews,
    List.filter_filter]
  refine List.filter_congr fun e _ => ?_
  rw [Bool.and_eq_left_iff_imp, beq_iff_eq]
  rintro rfl
  exact List.contains_iff_mem.2 hname

/-- **Cutting and copying agree.** Whatever operations made a graph, taking away what cannot be reached from the
sources leaves a graph and copying what can be makes a graph such that:
- both list the same names and the same edges, with ends and weights, in the same order;
- the names are those to which ways lead from sources that are vertices, in the order in which they were;
- the edges are those out of such names, in the order in which they were, and cutting leaves them their numbers;
- each name keeps all its edges. -/
theorem cutNonReachable_agrees (hg : g.Built) (sources : List String) :
    ((g.cutNonReachable sources).names = (g.connectedOut sources).names ∧
      (g.cutNonReachable sources).edgeViews.map EdgeView.content =
        (g.connectedOut sources).edgeViews.map EdgeView.content) ∧
    ((∀ y, y ∈ (g.cutNonReachable sources).names ↔ ∃ x ∈ sources, x ∈ g.names ∧ ReflTransGen g.Leads x y) ∧
      (g.cutNonReachable sources).names.Sublist g.names) ∧
    (g.cutNonReachable sources).edgeViews =
      g.edgeViews.filter ((g.cutNonReachable sources).names.contains ·.source) ∧
    ∀ y ∈ (g.cutNonReachable sources).names, (g.cutNonReachable sources).outEdges y = g.outEdges y ∧
      (((g.connectedOut sources).outEdges y).map EdgeView.content).Perm ((g.outEdges y).map EdgeView.content) := by
  have h := hg.wellFormed
  have hcopy := (g.built_connectedOut sources).wellFormed
  have hedges : (g.cutNonReachable sources).edgeViews.map EdgeView.content =
      (g.connectedOut sources).edgeViews.map EdgeView.content := by
    rw [h.edgeViews_cutNonReachable, h.contents_connectedOut]
  rw [names_cutNonReachable, h.names_connectedOut]
  refine ⟨⟨rfl, hedges⟩, ⟨fun y => h.mem_reachable, g.reachable_sublist sources⟩,
    h.edgeViews_cutNonReachable sources, fun y hy => ⟨h.outEdges_cutNonReachable hy, ?_⟩⟩
  rw [← h.outEdges_cutNonReachable hy]
  refine hcopy.outEdges_perm_of_contents (h.cutNonReachable sources) ?_ y
  exact ((edgeViews_perm _).symm.map _).trans (hedges ▸ (edgeViews_perm _).map _)

/-- Numbers that are used again: `D` and its edge take those of `A`, so that `D` comes before the names that lead
to it. -/
def refilled : Graph Nat :=
  let g := (empty.addEdge "A" "B" 1).2
  let g := (g.addEdge "B" "C" 2).2
  let g := (g.contractVertices (· == "A") fun i _ => i.weight).2
  let g := (g.addEdge "C" "D" 3).2
  (g.addEdge "E" "B" 4).2

theorem built_refilled : refilled.Built :=
  .addEdge (.addEdge (.contractVertices (.addEdge (.addEdge .empty _ _ _) _ _ _) _ _) _ _ _) _ _ _

theorem cutNonReachable_agrees_refilled :
    refilled.names = ["D", "B", "C", "E"] ∧ (refilled.cutNonReachable ["B", "F"]).names = ["D", "B", "C"] ∧
      (refilled.connectedOut ["B", "F"]).names = ["D", "B", "C"] ∧
      (refilled.cutNonReachable ["B", "F"]).edgeViews.map EdgeView.content =
        (refilled.connectedOut ["B", "F"]).edgeViews.map EdgeView.content ∧
      (refilled.cutNonReachable ["B", "F"]).outEdges "C" = refilled.outEdges "C" ∧
      (((refilled.connectedOut ["B", "F"]).outEdges "C").map EdgeView.content).Perm [("C", "D", 3)] := by
  obtain ⟨⟨hnames, hedges⟩, -, -, hout⟩ := cutNonReachable_agrees built_refilled ["B", "F"]
  have hkept : (refilled.cutNonReachable ["B", "F"]).names = ["D", "B", "C"] := by decide +kernel
  have hC : (refilled.outEdges "C").map EdgeView.content = [("C", "D", 3)] := by decide +kernel
  obtain ⟨hcut, hcopy⟩ := hout "C" (by rw [hkept]; decide)
  rw [hC] at hcopy
  exact ⟨by decide +kernel, hkept, hnames ▸ hkept, hedges, hcut, hcopy⟩

end Coupling.Graph
