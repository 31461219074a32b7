/-
Ways through a graph.

`Leads` says that an edge runs from one name to another. Searching along edges
comes to its end (`reachableIds_ends`) and finds the names to which a way leads, of
any length (`mem_reachable`).
-/
import Coupling.Proofs.Graph.WellFormed
import Coupling.Proofs.Search

open Relation (ReflTransGen)

namespace Coupling.Graph

variable {ω : Type} {g : Graph ω}

/-- An edge runs from one name to the other. -/
def Leads (g : Graph ω) (source target : String) : Prop := ∃ e ∈ g.outEdges source, e.target = target

instance (g : Graph ω) (source target : String) : Decidable (g.Leads source target) :=
  decidable_of_iff (target ∈ (g.outEdges source).map (·.target)) List.mem_map

theorem mem_successors {v w : Nat} : w ∈ g.successors v ↔ ∃ e ∈ g.edges, e.source = v ∧ e.target = w := by
  simp only [successors, outOf, List.mem_map, List.mem_filter, beq_iff_eq, and_assoc]

theorem WellFormed.leads_iff_view (h : g.WellFormed) {x y : String} :
    g.Leads x y ↔ ∃ e ∈ g.views, e.source = x ∧ e.target = y := by
  unfold Leads
  rw [h.outEdges_eq]
  simp only [List.mem_filter, beq_iff_eq, and_assoc]

/-- Names lead to names as their vertices do. -/
theorem WellFormed.leads_iff (h : g.WellFormed) {x y : String} :
    g.Leads x y ↔ ∃ v w, ⟨v, x⟩ ∈ g.vertices ∧ ⟨w, y⟩ ∈ g.vertices ∧ w ∈ g.successors v := by
  rw [h.leads_iff_view]
  constructor
  · rintro ⟨e, he, rfl, rfl⟩
    obtain ⟨e', he', rfl⟩ := List.mem_map.1 he
    exact ⟨e'.source, e'.target, h.mem_vertices (h.sources e' he'), h.mem_vertices (h.targets e' he'),
      mem_successors.2 ⟨e', he', rfl, rfl⟩⟩
  · rintro ⟨v, w, hv, hw, hvw⟩
    obtain ⟨e, he, rfl, rfl⟩ := mem_successors.1 hvw
    exact ⟨g.view e, List.mem_map_of_mem he, h.nameOf_of_mem hv, h.nameOf_of_mem hw⟩

/-! ## Searching along edges -/

/-- A way along vertices is a way along their names. -/
theorem WellFormed.reflTransGen_leads (h : g.WellFormed) {v w : Nat} {x : String} (hv : ⟨v, x⟩ ∈ g.vertices)
    (hway : ReflTransGen (fun a b => b ∈ g.successors a) v w) :
    ∃ y, ⟨w, y⟩ ∈ g.vertices ∧ ReflTransGen g.Leads x y := by
  induction hway with
  | refl => exact ⟨x, hv, .refl⟩
  | tail _ hstep ih =>
    obtain ⟨y, hy, hway⟩ := ih
    obtain ⟨e, he, rfl, rfl⟩ := mem_successors.1 hstep
    have hz := h.mem_vertices (h.targets e he)
    exact ⟨_, hz, hway.tail (h.leads_iff.2 ⟨_, _, hy, hz, hstep⟩)⟩

/-- A way along names is a way along their vertices. -/
theorem WellFormed.reflTransGen_successors (h : g.WellFormed) {v : Nat} {x y : String} (hv : ⟨v, x⟩ ∈ g.vertices)
    (hway : ReflTransGen g.Leads x y) :
    ∃ w, ⟨w, y⟩ ∈ g.vertices ∧ ReflTransGen (fun a b => b ∈ g.successors a) v w := by
  induction hway with
  | refl => exact ⟨v, hv, .refl⟩
  | tail _ hstep ih =>
    obtain ⟨w, hw, hway⟩ := ih
    obtain ⟨w', z, hw', hz, hstep⟩ := h.leads_iff.1 hstep
    have hsame : w' = w := by
      have hw := h.idOf?_eq_some_iff.2 hw
      have hw' := h.idOf?_eq_some_iff.2 hw'
      exact Option.some.inj (hw'.symm.trans hw)
    exact ⟨z, hz, hway.tail (hsame ▸ hstep)⟩

/-- The search comes to its end: at most the sources and the targets of edges are met. -/
theorem reachableIds_ends (g : Graph ω) (sources : List String) :
    Search.Ends id g.successors (sources.filterMap g.idOf?) (g.reachableIds sources) := by
  refine Search.breadthFirst_ends id (U := sources.filterMap g.idOf? ++ g.edges.map (·.target)) ?_ ?_ ?_
  · exact fun v hv => List.mem_append_left _ hv
  · intro v w hw
    obtain ⟨e, he, -, rfl⟩ := mem_successors.1 hw
    exact List.mem_append_right _ (List.mem_map_of_mem he)
  · have hle := List.length_filterMap_le g.idOf? sources
    rw [List.length_append, List.length_map]
    unfold edgeCount
    omega

/-- The vertices found are those that ways lead to. -/
theorem mem_reachableIds {sources : List String} {w : Nat} :
    w ∈ g.reachableIds sources ↔
      ∃ v ∈ sources.filterMap g.idOf?, ReflTransGen (fun a b => b ∈ g.successors a) v w :=
  (g.reachableIds_ends sources).mem_iff_of_id

/-- **The names found are those that ways lead to**, from names that are vertices. -/
theorem WellFormed.mem_reachable (h : g.WellFormed) {sources : List String} {y : String} :
    y ∈ g.reachable sources ↔ ∃ x ∈ sources, x ∈ g.names ∧ ReflTransGen g.Leads x y := by
  simp only [reachable, List.mem_map, List.mem_filter, List.contains_iff_mem, mem_reachableIds, List.mem_filterMap]
  constructor
  · rintro ⟨z, ⟨hz, v, ⟨x, hx, hid⟩, hway⟩, rfl⟩
    have hv := h.idOf?_eq_some_iff.1 hid
    obtain ⟨y, hy, hway⟩ := h.reflTransGen_leads hv hway
    have hsame : y = z.name := (h.nameOf_of_mem hy).symm.trans (h.nameOf_of_mem hz)
    exact ⟨x, hx, name_mem_names hv, hsame ▸ hway⟩
  · rintro ⟨x, hx, hname, hway⟩
    obtain ⟨z, hz, rfl⟩ := mem_names.1 hname
    obtain ⟨w, hw, hway⟩ := h.reflTransGen_successors hz hway
    exact ⟨⟨w, y⟩, ⟨hw, z.id, ⟨z.name, hx, h.idOf?_eq_some_iff.2 hz⟩, hway⟩, rfl⟩

/-- Names that are no vertices lead nowhere. -/
theorem reachable_filter_contains (g : Graph ω) (sources : List String) :
    g.reachable (sources.filter g.contains) = g.reachable sources := by
  have hstarts : (sources.filter g.contains).filterMap g.idOf? = sources.filterMap g.idOf? := by
    rw [List.filterMap_filter]
    refine List.filterMap_congr fun x _ => ?_
    unfold contains
    cases g.idOf? x <;> rfl
  have hids (w : Nat) : w ∈ g.reachableIds (sources.filter g.contains) ↔ w ∈ g.reachableIds sources := by
    rw [mem_reachableIds, mem_reachableIds, hstarts]
  unfold reachable
  simp only [List.contains_eq_mem, hids]

/-- The names found are those of the vertices that the search worked off, each once. -/
theorem WellFormed.reachableIds_perm (h : g.WellFormed) (sources : List String) :
    ((g.reachableIds sources).map g.nameOf).Perm (g.reachable sources) := by
  have hids : ∀ v ∈ g.reachableIds sources, v ∈ g.ids := by
    intro v hv
    obtain ⟨u, hu, hway⟩ := mem_reachableIds.1 hv
    obtain ⟨x, -, hx⟩ := List.mem_filterMap.1 hu
    obtain ⟨y, hy, -⟩ := h.reflTransGen_leads (h.idOf?_eq_some_iff.1 hx) hway
    exact id_mem_ids hy
  have hnodup : (g.reachableIds sources).Nodup := by
    simpa using (g.reachableIds_ends sources).nodup
  have hreached : (g.reachableIds sources).Perm
      ((g.vertices.filter ((g.reachableIds sources).contains ·.id)).map (·.id)) := by
    rw [List.perm_ext_iff_of_nodup hnodup (h.ids_nodup.sublist (List.filter_sublist.map _))]
    intro v
    simp only [List.mem_map, List.mem_filter, List.contains_iff_mem]
    constructor
    · exact fun hv => ⟨_, ⟨h.mem_vertices (hids v hv), hv⟩, rfl⟩
    · rintro ⟨x, ⟨-, hx⟩, rfl⟩
      exact hx
  refine (hreached.map g.nameOf).trans (.of_eq ?_)
  rw [List.map_map]
  exact List.map_congr_left fun x hx => h.nameOf_of_mem (List.mem_of_mem_filter hx)

/-- **Searching along edges finds the reflexive-transitive closure.** Whatever operations made a graph, with cycles,
loops and parallel edges:
- a name is found exactly if a way leads to it, of any length or none, from a source that is a vertex;
- sources that are no vertices do not matter;
- the search comes to its end, and has worked off each vertex of a name found once by then. -/
theorem reachable_exact (hg : g.Built) (sources : List String) :
    (∀ y, y ∈ g.reachable sources ↔ ∃ x ∈ sources, x ∈ g.names ∧ ReflTransGen g.Leads x y) ∧
      g.reachable (sources.filter g.contains) = g.reachable sources ∧
      Search.Ends id g.successors (sources.filterMap g.idOf?) (g.reachableIds sources) ∧
      ((g.reachableIds sources).map g.nameOf).Perm (g.reachable sources) ∧ (g.reachable sources).Nodup := by
  have h := hg.wellFormed
  refine ⟨fun y => h.mem_reachable, g.reachable_filter_contains sources, g.reachableIds_ends sources,
    h.reachableIds_perm sources, h.names.sublist (List.filter_sublist.map _)⟩

/-- Two streets from `A` to `B` and one back, one from `B` round to itself, and one from `C` in. -/
def block : Graph Nat :=
  let g := (empty.addEdge "A" "B" 1).2
  let g := (g.addEdge "A" "B" 2).2
  let g := (g.addEdge "B" "A" 3).2
  let g := (g.addEdge "B" "B" 4).2
  (g.addEdge "C" "A" 5).2

theorem built_block : block.Built :=
  .addEdge (.addEdge (.addEdge (.addEdge (.addEdge .empty _ _ _) _ _ _) _ _ _) _ _ _) _ _ _

theorem reachable_exact_block :
    block.names = ["A", "B", "C"] ∧ block.reachable ["D", "B"] = ["A", "B"] ∧
      (∃ x ∈ ["D", "B"], x ∈ block.names ∧ ReflTransGen block.Leads x "A") ∧
      (¬ ∃ x ∈ ["D", "B"], x ∈ block.names ∧ ReflTransGen block.Leads x "C") ∧
      Search.Ends id block.successors [1] [1, 0] := by
  obtain ⟨hmem, -, hends, -⟩ := reachable_exact built_block ["D", "B"]
  have hfound : block.reachable ["D", "B"] = ["A", "B"] := by decide +kernel
  rw [hfound] at hmem
  have hstarts : ["D", "B"].filterMap block.idOf? = [1] := by decide +kernel
  have hids : block.reachableIds ["D", "B"] = [1, 0] := by decide +kernel
  rw [hstarts, hids] at hends
  exact ⟨by decide +kernel, hfound, (hmem "A").1 (by decide), fun h => absurd ((hmem "C").2 h) (by decide), hends⟩

end Coupling.Graph
