/-
The edges that contracting a vertex leaves.

Edges that avoid the vertex stay as they are. Of the others, those into the vertex
and those out of it are paired, and each pair that begins and ends elsewhere has
one new edge (`views_contract_eq`). A loop at the vertex is both an edge into it and
an edge out of it, but every pair it is in begins or ends at the vertex; so loops go
without a trace, and are counted once among the edges that go
(`contractVertex_exact`).
-/
import Coupling.Proofs.Graph.Assembly
import Coupling.Proofs.Graph.Contraction
import Coupling.Proofs.Matched

namespace Coupling.Graph

variable {ω : Type} {g : Graph ω} {merge : EdgeView ω → EdgeView ω → ω} {v : Nat} {name : String}

/-! ## Edges at a vertex -/

/-- An end of an edge is a vertex just if it has its name. -/
theorem WellFormed.end_beq (h : g.WellFormed) {w : Nat} (hv : ⟨v, name⟩ ∈ g.vertices) (hw : w ∈ g.ids) :
    (g.nameOf w == name) = (w == v) := by
  have hiff := h.nameOf_eq_iff hw (h.idOf?_eq_some_iff.2 hv)
  simp only [Bool.beq_eq_decide_eq, hiff]

/-- The edges into a vertex that come from elsewhere. -/
theorem WellFormed.inEdges_elsewhere (h : g.WellFormed) (hv : ⟨v, name⟩ ∈ g.vertices) :
    (g.inEdges name).filter (·.source != name) = ((g.into v).filter (·.source != v)).map g.view := by
  rw [h.inEdges_of_mem hv, List.filter_map]
  congr 1
  refine List.filter_congr fun e he => ?_
  simp only [Function.comp_apply, view, bne, h.end_beq hv (h.sources e (List.mem_of_mem_filter he))]

/-- The edges out of a vertex that go elsewhere. -/
theorem WellFormed.outEdges_elsewhere (h : g.WellFormed) (hv : ⟨v, name⟩ ∈ g.vertices) :
    (g.outEdges name).filter (·.target != name) = ((g.outOf v).filter (·.target != v)).map g.view := by
  rw [h.outEdges_of_mem hv, List.filter_map]
  congr 1
  refine List.filter_congr fun e he => ?_
  simp only [Function.comp_apply, view, bne, h.end_beq hv (h.targets e (List.mem_of_mem_filter he))]

/-- The edges that avoid a vertex. -/
theorem WellFormed.views_elsewhere (h : g.WellFormed) (hv : ⟨v, name⟩ ∈ g.vertices) :
    (g.views.filter fun e => e.source != name && e.target != name) =
      (g.edges.filter fun e => e.source != v && e.target != v).map g.view := by
  rw [views, List.filter_map]
  congr 1
  refine List.filter_congr fun e he => ?_
  simp only [Function.comp_apply, view, bne, h.end_beq hv (h.sources e he), h.end_beq hv (h.targets e he)]

/-- The pairs of edges that lead past a name: one into it from elsewhere and one out of it to elsewhere. -/
def past (g : Graph ω) (name : String) : List (EdgeView ω × EdgeView ω) :=
  ((g.inEdges name).filter (·.source != name)).flatMap fun i =>
    ((g.outEdges name).filter (·.target != name)).map fun o => (i, o)

theorem length_past (g : Graph ω) (name : String) :
    (g.past name).length = ((g.inEdges name).filter (·.source != name)).length *
      ((g.outEdges name).filter (·.target != name)).length := by
  unfold past
  rw [List.length_flatMap]
  simp

theorem filter_pairs {α β : Type} (xs : List α) (ys : List β) (p : α → Bool) (q : β → Bool) :
    (xs.flatMap fun x => ys.map fun y => (x, y)).filter (fun z => p z.1 && q z.2) =
      (xs.filter p).flatMap fun x => (ys.filter q).map fun y => (x, y) := by
  induction xs with
  | nil => rfl
  | cons x xs ih =>
    have hfirst : (ys.map fun y => (x, y)).filter (fun z => p z.1 && q z.2) =
        if p x then (ys.filter q).map fun y => (x, y) else [] := by
      rw [List.filter_map]
      cases hx : p x <;> simp [Function.comp_def, hx]
    rw [List.flatMap_cons, List.filter_append, ih, hfirst, List.filter_cons]
    split <;> rfl

/-- The pairs of edges that lead past a vertex, by number and by name. -/
theorem WellFormed.past_eq (h : g.WellFormed) (hv : ⟨v, name⟩ ∈ g.vertices) :
    g.past name = (((g.into v).flatMap fun i => (g.outOf v).map fun o => (i, o)).filter
      fun z => z.1.source != v && z.2.target != v).map fun z => (g.view z.1, g.view z.2) := by
  rw [past, h.inEdges_elsewhere hv, h.outEdges_elsewhere hv,
    filter_pairs (g.into v) (g.outOf v) (·.source != v) (·.target != v)]
  simp only [List.map_flatMap, List.flatMap_map, List.map_map, Function.comp_def]

/-! ## What is left -/

theorem edges_contract (g : Graph ω) (merge : EdgeView ω → EdgeView ω → ω) (v : Nat) :
    (g.contract merge v).edges =
      (g.linkAll (g.through merge v)).edges.filter fun e => e.source != v && e.target != v := rfl

theorem WellFormed.nameOf_contract (h : g.WellFormed) {w : Nat} (hv : v ∈ g.ids) (hw : w ∈ g.ids) (hne : w ≠ v) :
    (g.contract merge v).nameOf w = g.nameOf w :=
  (h.contract merge hv).nameOf_of_mem (mem_vertices_contract.2 ⟨h.mem_vertices hw, hne⟩)

/-- An edge between other vertices looks the same when the vertex is contracted. -/
theorem WellFormed.view_contract (h : g.WellFormed) (hv : v ∈ g.ids) {e : Edge ω} (hs : e.source ∈ g.ids)
    (ht : e.target ∈ g.ids) (hends : (e.source != v && e.target != v) = true) :
    (g.contract merge v).view e = g.view e := by
  rw [Bool.and_eq_true, bne_iff_ne, bne_iff_ne] at hends
  simp only [view, h.nameOf_contract hv hs hends.1, h.nameOf_contract hv ht hends.2]

/-- **What is left when a vertex is contracted**: a new edge for each pair that leads past it, and the edges that
avoid it. -/
theorem WellFormed.views_contract_eq (h : g.WellFormed) (merge : EdgeView ω → EdgeView ω → ω)
    (hv : ⟨v, name⟩ ∈ g.vertices) :
    ∃ fresh, (g.contract merge v).views = fresh ++ g.views.filter (fun e => e.source != name && e.target != name) ∧
      Matched (fun z e => e.content = (z.1.source, z.2.target, merge z.1 z.2)) (g.past name) fresh ∧
      ∀ e ∈ fresh, e.id ∉ g.views.map (·.id) := by
  have hid := id_mem_ids hv
  obtain ⟨fresh, hedges, hcontent⟩ := g.edges_linkAll (g.through merge v)
  have hlinked := h.linkAll_through merge v
  have hends : ∀ e ∈ fresh, e.source ∈ g.ids ∧ e.target ∈ g.ids := by
    intro e he
    have hmem : e ∈ (g.linkAll (g.through merge v)).edges := hedges ▸ List.mem_append_left _ he
    have hs := hlinked.sources e hmem
    have ht := hlinked.targets e hmem
    rw [ids, vertices_linkAll] at hs ht
    exact ⟨hs, ht⟩
  -- the new edges, pair by pair
  have hpairs : Matched (fun z f => (z.1.source, z.2.target, merge (g.view z.1) (g.view z.2)) = f.content)
      ((g.into v).flatMap fun i => (g.outOf v).map fun o => (i, o)) fresh := by
    refine .of_map_perm ?_
    rw [hcontent, List.map_flatMap]
    simp only [List.map_map, Function.comp_def]
    exact (List.reverse_perm _).symm
  have hkept := hpairs.filter (p := fun z => z.1.source != v && z.2.target != v)
    (q := fun f => f.source != v && f.target != v) fun z f hzf => by
      simp only [Edge.content, Prod.mk.injEq] at hzf
      rw [hzf.1, hzf.2.1]
  refine ⟨(fresh.filter fun e => e.source != v && e.target != v).map (g.contract merge v).view, ?_, ?_, ?_⟩
  · have hold : (g.edges.filter fun e => e.source != v && e.target != v).map (g.contract merge v).view =
        (g.edges.filter fun e => e.source != v && e.target != v).map g.view :=
      List.map_congr_left fun e he =>
        have hmem := List.mem_filter.1 he
        h.view_contract hid (h.sources e hmem.1) (h.targets e hmem.1) hmem.2
    rw [views, edges_contract, hedges, List.filter_append, List.map_append, h.views_elsewhere hv, hold]
  · rw [h.past_eq hv]
    refine hkept.map fun z hz f hf hzf => ?_
    obtain ⟨hf, helsewhere⟩ := List.mem_filter.1 hf
    simp only [Edge.content, Prod.mk.injEq] at hzf
    rw [h.view_contract hid (hends f hf).1 (hends f hf).2 helsewhere]
    simp only [EdgeView.content, view, ← hzf.1, ← hzf.2.1, ← hzf.2.2]
  · intro e he hold
    obtain ⟨f, hf, rfl⟩ := List.mem_map.1 he
    have hnodup := hlinked.edgeIds.nodup.of_append_left
    rw [hedges, List.map_append] at hnodup
    refine List.disjoint_of_nodup_append hnodup (List.mem_map_of_mem (List.mem_of_mem_filter hf)) ?_
    simpa [views, Function.comp_def, view] using hold

/-! ## Counting -/

/-- The edges into a name are the loops there and those from elsewhere. -/
theorem WellFormed.length_inEdges (h : g.WellFormed) (name : String) :
    (g.inEdges name).length =
      (g.edgesBetween name name).length + ((g.inEdges name).filter (·.source != name)).length := by
  have hloops : (g.inEdges name).filter (·.source == name) = g.edgesBetween name name := by
    rw [h.inEdges_eq, h.edgesBetween_eq, List.filter_filter]
  have hsplit := (List.filter_append_perm (·.source == name) (g.inEdges name)).length_eq
  rw [List.length_append, hloops] at hsplit
  exact hsplit.symm

/-- The edges out of a name are the loops there and those to elsewhere. -/
theorem length_outEdges (g : Graph ω) (name : String) :
    (g.outEdges name).length =
      (g.edgesBetween name name).length + ((g.outEdges name).filter (·.target != name)).length := by
  have hsplit := (List.filter_append_perm (·.target == name) (g.outEdges name)).length_eq
  rw [List.length_append] at hsplit
  exact hsplit.symm

/-- Every edge goes out of a vertex, comes into it from elsewhere or avoids it. -/
theorem WellFormed.edgeCount_eq (h : g.WellFormed) (hv : ⟨v, name⟩ ∈ g.vertices) :
    g.edgeCount = (g.outEdges name).length + ((g.inEdges name).filter (·.source != name)).length +
      (g.views.filter fun e => e.source != name && e.target != name).length := by
  have hsplit := (g.edges_perm_drop v).length_eq
  rw [List.length_append, List.length_append, edges_drop] at hsplit
  rw [edgeCount, h.outEdges_of_mem hv, h.inEdges_elsewhere hv, h.views_elsewhere hv]
  simpa only [List.length_map] using hsplit

/-- Of `k` edges into a vertex and `m` out of it, `s` of them loops, `k + m - s` go and `(k - s) * (m - s)` come. -/
theorem WellFormed.edgeCount_contract (h : g.WellFormed) (merge : EdgeView ω → EdgeView ω → ω)
    (hv : ⟨v, name⟩ ∈ g.vertices) {k m s : Int} (hk : k = (g.inEdges name).length) (hm : m = (g.outEdges name).length)
    (hs : s = (g.edgesBetween name name).length) :
    ((g.contract merge v).edgeCount : Int) = g.edgeCount - (k + m - s) + (k - s) * (m - s) := by
  obtain ⟨fresh, hviews, hmatched, -⟩ := h.views_contract_eq merge hv
  have hleft : (g.contract merge v).edgeCount =
      (g.past name).length + (g.views.filter fun e => e.source != name && e.target != name).length := by
    rw [hmatched.length_eq, ← List.length_append, ← hviews, views, List.length_map]
    rfl
  have hall := h.edgeCount_eq hv
  have hin := h.length_inEdges name
  have hout := g.length_outEdges name
  have hk : k - s = ((g.inEdges name).filter (·.source != name)).length := by omega
  have hm : m - s = ((g.outEdges name).filter (·.target != name)).length := by omega
  rw [hleft, length_past, hk, hm]
  push_cast
  omega

/-- **Contracting a vertex is exact.** A name that is no vertex is refused. Of a vertex nothing is left: the others
stay with their numbers, edges that avoid it stay with their numbers, ends and weights, and there is one new edge,
under a number of its own, for each pair of an edge into the vertex from elsewhere and one out of it to elsewhere. Of
`k` edges into it and `m` out of it, `s` of them loops, `k + m - s` edges go and `(k - s) * (m - s)` come. -/
theorem contractVertex_exact (hg : g.Built) (merge : EdgeView ω → EdgeView ω → ω) (name : String) :
    (name ∉ g.names → g.contractVertex merge name = .error (.vertexNotFound name)) ∧
      (name ∈ g.names → ∃ g' fresh, g.contractVertex merge name = .ok g' ∧
        g'.vertices = g.vertices.filter (·.name != name) ∧
        g'.edgeViews.Perm (fresh ++ g.edgeViews.filter fun e => e.source != name && e.target != name) ∧
        Matched (fun z e => e.content = (z.1.source, z.2.target, merge z.1 z.2)) (g.past name) fresh ∧
        (∀ e ∈ fresh, e.id ∉ g.edgeViews.map (·.id)) ∧ (g'.edgeViews.map (·.id)).Nodup ∧
        let k : Int := (g.inEdges name).length
        let m : Int := (g.outEdges name).length
        let s : Int := (g.edgesBetween name name).length
        (g'.edgeCount : Int) = g.edgeCount - (k + m - s) + (k - s) * (m - s)) := by
  have h := hg.wellFormed
  constructor
  · intro hname
    simp [contractVertex, require, h.idOf?_eq_none_iff.2 hname, bind, Except.bind]
  · intro hname
    obtain ⟨⟨v, n⟩, hv, rfl⟩ := mem_names.1 hname
    obtain ⟨fresh, hviews, hmatched, hnew⟩ := h.views_contract_eq merge hv
    have hok : g.contractVertex merge n = .ok (g.contract merge v) := by
      simp [contractVertex, require, h.idOf?_eq_some_iff.2 hv, bind, Except.bind, pure, Except.pure]
    have hids : ((g.contract merge v).views.map (·.id)).Nodup := by
      have hnodup := (h.contract merge (id_mem_ids hv)).edgeIds.nodup.of_append_left
      simpa [views, Function.comp_def, view] using hnodup
    refine ⟨g.contract merge v, fresh, hok, h.vertices_contract_eq hv, ?_, hmatched, ?_, ?_, ?_⟩
    · exact ((edgeViews_perm _).trans (.of_eq hviews)).trans (((edgeViews_perm g).filter _).symm.append_left _)
    · intro e he hold
      exact hnew e he (((edgeViews_perm g).map _).mem_iff.1 hold)
    · exact ((edgeViews_perm _).map _).nodup_iff.2 hids
    · exact h.edgeCount_contract merge hv rfl rfl rfl

theorem contractVertex_exact_tangle :
    ∃ g', tangle.contractVertex (fun i o => i.weight + o.weight) "Left" = .ok g' ∧
      g'.vertices.map (·.name) = ["In", "Right", "Out"] ∧ g'.edgeCount = 4 ∧
      ("Right", "Right", 9) ∈ g'.edgeViews.map EdgeView.content := by
  obtain ⟨g', fresh, hok, hvertices, hviews, hmatched, -, -, hcount⟩ :=
    (contractVertex_exact built_tangle (fun i o => i.weight + o.weight) "Left").2 (by decide +kernel)
  obtain ⟨z, hz, hround⟩ : ∃ z ∈ tangle.past "Left",
      (z.1.source, z.2.target, z.1.weight + z.2.weight) = ("Right", "Right", 9) := by decide +kernel
  obtain ⟨e, he, hcontent⟩ := hmatched.exists_right hz
  refine ⟨g', hok, ?_, ?_, ?_⟩
  · rw [hvertices]
    decide +kernel
  · have hk : (tangle.inEdges "Left").length = 4 := by decide +kernel
    have hm : (tangle.outEdges "Left").length = 2 := by decide +kernel
    have hs : (tangle.edgesBetween "Left" "Left").length = 1 := by decide +kernel
    have hall : tangle.edgeCount = 6 := by decide +kernel
    simp only [hk, hm, hs, hall] at hcount
    omega
  · exact List.mem_map.2 ⟨e, hviews.mem_iff.2 (List.mem_append_left _ he), hcontent.trans hround⟩

end Coupling.Graph
