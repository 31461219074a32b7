/-
Shortest paths from one source make a tree.

The paths from a source are read back from one table of arrivals, which has one edge for
each vertex. So two paths that come to a name come to it by the same edge
(`pathsBetween_tree`), and none comes back to the source. Edges of which no two lead to
the same name make a tree, if ways lead from a root to all of them and none leads to the
root (`WellFormed.outTree`).
-/
import Coupling.Proofs.Graph.UnionOfPaths

open Relation (ReflTransGen)

namespace Coupling.Graph

/-! ## Trees -/

section Trees

variable {ω : Type} {g : Graph ω} {root : String}

/-- A tree whose edges lead away from its root: no edge leads to the root and one to every other name, and ways lead
from the root to all of them. -/
structure OutTree (g : Graph ω) (root : String) : Prop where
  root_mem : root ∈ g.names
  inEdges_root : g.inEdges root = []
  one_in : ∀ v ∈ g.names, v ≠ root → (g.inEdges v).length = 1
  reached : ∀ v ∈ g.names, ReflTransGen g.Leads root v

theorem WellFormed.count_targets (h : g.WellFormed) (v : String) :
    (g.views.map (·.target)).count v = (g.inEdges v).length := by
  rw [h.inEdges_eq, ← List.countP_eq_length_filter, List.count, List.countP_map]
  rfl

/-- A tree has one edge for each name but the root. -/
theorem OutTree.edgeCount_eq (ht : g.OutTree root) (h : g.WellFormed) : g.edgeCount + 1 = g.vertexCount := by
  have hperm : (root :: g.views.map (·.target)).Perm g.names := by
    refine List.perm_iff_count.2 fun v => ?_
    rw [List.count_cons, h.count_targets, h.names.count]
    by_cases hv : v = root
    · simp [hv, ht.inEdges_root, ht.root_mem]
    · by_cases hname : v ∈ g.names
      · simp [hname, ht.one_in v hname hv, Ne.symm hv]
      · simp [inEdges, h.idOf?_eq_none_iff.2 hname, hname, Ne.symm hv]
  simpa [views, edgeCount, vertexCount, names] using hperm.length_eq

/-- Edges of which no two lead to the same name make a tree, if ways lead to all of them from a root to which none
leads. -/
theorem WellFormed.outTree (h : g.WellFormed) (hne : g.views ≠ [])
    (hends : ∀ n ∈ g.names, ∃ e ∈ g.views, e.source = n ∨ e.target = n) (hone : (g.views.map (·.target)).Nodup)
    (hroot : ∀ e ∈ g.views, e.target ≠ root) (hways : ∀ e ∈ g.views, ReflTransGen g.Leads root e.source) :
    g.OutTree root := by
  have htarget : ∀ v ∈ g.names, v ≠ root → v ∈ g.views.map (·.target) := by
    intro v hv hvroot
    obtain ⟨e, he, rfl | rfl⟩ := hends v hv
    · -- the way to the edge ends with another, which leads to its source
      obtain heq | ⟨w, -, hlast⟩ := (hways e he).cases_tail
      · exact absurd heq hvroot
      · obtain ⟨f, hf, -, hend⟩ := h.leads_iff_view.1 hlast
        exact List.mem_map.2 ⟨f, hf, hend⟩
    · exact List.mem_map_of_mem he
  refine ⟨?_, ?_, fun v hv hvroot => ?_, fun v hv => ?_⟩
  · obtain ⟨e, he⟩ := List.exists_mem_of_ne_nil _ hne
    obtain heq | ⟨w, hfirst, -⟩ := (hways e he).cases_head
    · exact heq ▸ h.source_mem he
    · obtain ⟨f, hf, hstart, -⟩ := h.leads_iff_view.1 hfirst
      exact hstart ▸ h.source_mem hf
  · rw [h.inEdges_eq, List.filter_eq_nil_iff]
    exact fun e he hend => hroot e he (beq_iff_eq.1 hend)
  · rw [← h.count_targets]
    exact List.count_eq_one_of_mem hone (htarget v hv hvroot)
  · obtain ⟨e, he, rfl | rfl⟩ := hends v hv
    · exact hways e he
    · exact (hways e he).tail (h.leads_iff_view.2 ⟨e, he, rfl, rfl⟩)

end Trees

/-! ## One arrival at each name -/

section Arrivals

variable {ω γ : Type} [Cost γ] [RankedCost γ] {g : Graph ω} {costOf : EdgeView ω → γ} {source : Nat}

/-- Paths that come to a name come to it by the same edge. -/
def ShareArrivals (paths : List (List (EdgeView ω))) : Prop :=
  ∀ p ∈ paths, ∀ q ∈ paths, ∀ e ∈ p, ∀ f ∈ q, e.target = f.target → e = f

/-- The edges of a path read back are arrivals at their targets. -/
theorem PathSearch.Finished.arrival {s : PathSearch γ} (hs : PathSearch.Finished g costOf source s) (h : g.WellFormed)
    {v : Nat} (hv : v ≠ source) (hfound : s.arrivals.contains v = true) {e : EdgeView ω}
    (he : e ∈ g.pathTo s.arrivals source v) : ∃ f ∈ g.edges, g.view f = e ∧ s.arrivals.get? f.target = some f.id := by
  obtain ⟨-, settled, paths, level, hp, -⟩ := hs
  obtain ⟨d, hd⟩ := (hp.contains_iff hv).1 hfound
  rw [hp.pathTo_eq h hd] at he
  obtain ⟨f, hf, rfl⟩ := List.mem_map.1 he
  have hon : ∀ f ∈ paths v, f ∈ g.edges ∧ s.arrivals.get? f.target = some f.id :=
    hp.on_path (fun f hedge _ hid => ⟨hedge, hid⟩) hd
  exact ⟨f, (hon f hf).1, rfl, (hon f hf).2⟩

theorem WellFormed.pathsFrom_tree (h : g.WellFormed) {targets : List Vertex} {x : Vertex}
    {ps : List (List (EdgeView ω))} (hps : g.pathsFrom costOf targets x = .ok ps) : ShareArrivals ps := by
  obtain ⟨s, hs, harrivals⟩ | ⟨-, -, -, e, -, -, herror⟩ := finished_or_refused g costOf x.id
  case inr =>
    rw [pathsFrom_error_iff.2 herror] at hps
    cases hps
  simp only [pathsFrom, harrivals, bind, Except.bind, pure, Except.pure, Except.ok.injEq] at hps
  have hread : ∀ p ∈ ps, ∀ e ∈ p, ∃ f ∈ g.edges, g.view f = e ∧ s.arrivals.get? f.target = some f.id := by
    intro p hp e he
    rw [← hps] at hp
    obtain ⟨t, ht, rfl⟩ := List.mem_map.1 (List.mem_of_mem_filter hp)
    obtain ⟨hne, hfound⟩ := Bool.and_eq_true_iff.1 (List.mem_filter.1 ht).2
    exact hs.arrival h (bne_iff_ne.1 hne) hfound he
  intro p hp q hq e he f hf htarget
  obtain ⟨e, hedge, rfl, hid⟩ := hread p hp e he
  obtain ⟨f, hedge', rfl, hid'⟩ := hread q hq f hf
  have hsame : e.target = f.target :=
    (h.name_eq_iff (h.mem_vertices (h.targets e hedge)) (h.mem_vertices (h.targets f hedge'))).1 htarget
  rw [hsame] at hid
  exact h.view_ext (List.mem_map_of_mem hedge) (List.mem_map_of_mem hedge') (Option.some.inj (hid.symm.trans hid'))

/-- **The paths from one name make a tree**: they come to each name by one edge. -/
theorem WellFormed.pathsBetween_tree (h : g.WellFormed) {s : String} {targets : List String}
    {paths : List (List (EdgeView ω))} (hpaths : g.pathsBetween costOf [s] targets = .ok paths) :
    ShareArrivals paths := by
  rcases g.pathsBetween_ok_or_error costOf [s] targets with ⟨found, hfound, hall⟩ | ⟨-, -, err, -, herror⟩
  · obtain rfl := Except.ok.inj (hfound.symm.trans hpaths)
    have hfrom : ∀ p ∈ found.flatten, ∃ x ∈ g.among [s], ∃ ps,
        g.pathsFrom costOf (g.among targets) x = .ok ps ∧ p ∈ ps := by
      intro p hp
      obtain ⟨ps, hps, hp⟩ := List.mem_flatten.1 hp
      obtain ⟨x, hx, hsearch⟩ := (Matched.of_forall₂ hall).exists_left hps
      exact ⟨x, hx, ps, hsearch, hp⟩
    intro p hp q hq
    obtain ⟨x, hx, ps, hps, hp⟩ := hfrom p hp
    obtain ⟨y, hy, qs, hqs, hq⟩ := hfrom q hq
    -- both were searched for from the one vertex of that name
    obtain ⟨hx, hxname⟩ := mem_among.1 hx
    obtain ⟨hy, hyname⟩ := mem_among.1 hy
    have hname : x.name = y.name := (List.mem_singleton.1 hxname).trans (List.mem_singleton.1 hyname).symm
    obtain rfl := List.inj_on_of_nodup_map h.names hx hy hname
    obtain rfl := Except.ok.inj (hps.symm.trans hqs)
    exact h.pathsFrom_tree hps p hp q hq
  · rw [herror] at hpaths
    cases hpaths

end Arrivals

/-! ## The union of paths from one source -/

section Union

variable {ω : Type} {g : Graph ω}

/-- Where steps are made along the edges of a walk, ways lead to all of them. -/
theorem WellFormed.reflTransGen_of_walk (h : g.WellFormed) {r : String → String → Prop} {x y : String}
    {p : List (EdgeView ω)} (hp : g.Walk x y p) (hr : ∀ e ∈ p, r e.source e.target) :
    ∀ e ∈ p, ReflTransGen r x e.source := by
  induction hp with
  | nil => simp
  | @cons x y f p hf _ ih =>
    obtain ⟨hfirst, hrest⟩ := List.forall_mem_cons.1 hr
    obtain ⟨-, rfl⟩ := h.mem_outEdges.1 hf
    exact List.forall_mem_cons.2 ⟨.refl, fun e he => .head hfirst (ih hrest e he)⟩

theorem targets_unionOf_perm (paths : List (List (EdgeView ω))) :
    ((unionOf paths).views.map (·.target)).Perm ((firsts [] paths.flatten).map (·.target)) := by
  have htargets := congrArg (List.map fun z => z.2.1) (contents_unionOf paths)
  rw [List.map_map, List.map_map] at htargets
  exact ((edgeViews_perm _).map _).symm.trans (.of_eq htargets)

/-- Walks from a name that do not come back to it and share their arrivals make a tree. -/
theorem WellFormed.outTree_unionOf (h : g.WellFormed) {s : String} {paths : List (List (EdgeView ω))}
    (hwalks : ∀ p ∈ paths, ∃ t, g.Walk s t p ∧ (s :: p.map (·.target)).Nodup) (hshare : ShareArrivals paths)
    (hne : (unionOf paths).isEmpty = false) : (unionOf paths).OutTree s := by
  have hu := (grown_unionOf paths).wellFormed
  have hmem : ∀ {e}, e ∈ firsts [] paths.flatten ↔ ∃ p ∈ paths, e ∈ p := by
    refine h.mem_firsts_flatten fun p hp => ?_
    obtain ⟨t, hwalk, -⟩ := hwalks p hp
    exact ⟨s, t, hwalk⟩
  have hends : ∀ n ∈ (unionOf paths).names, ∃ e ∈ (unionOf paths).views, e.source = n ∨ e.target = n := by
    intro n hn
    obtain ⟨e, he, hend⟩ := mem_names_unionOf.1 hn
    exact ⟨e, (edgeViews_perm _).mem_iff.1 he, hend⟩
  have hon : ∀ e ∈ (unionOf paths).views, ∃ p ∈ paths, ∃ f ∈ p, f.source = e.source ∧ f.target = e.target := by
    intro e he
    obtain ⟨f, hf, hsame⟩ := mem_contents_unionOf.1 (List.mem_map_of_mem he)
    obtain ⟨p, hp, hf⟩ := hmem.1 hf
    exact ⟨p, hp, f, hf, congrArg (·.1) hsame, congrArg (·.2.1) hsame⟩
  have hleads : ∀ p ∈ paths, ∀ f ∈ p, (unionOf paths).Leads f.source f.target := by
    intro p hp f hf
    have hcontent : f.content ∈ (unionOf paths).views.map EdgeView.content :=
      mem_contents_unionOf.2 ⟨f, hmem.2 ⟨p, hp, hf⟩, rfl⟩
    obtain ⟨e, he, hsame⟩ := List.mem_map.1 hcontent
    exact hu.leads_iff_view.2 ⟨e, he, congrArg (·.1) hsame, congrArg (·.2.1) hsame⟩
  refine hu.outTree ?_ hends ?_ (fun e he => ?_) fun e he => ?_
  · obtain ⟨x, hx⟩ := List.exists_mem_of_ne_nil _ (List.isEmpty_eq_false_iff.1 hne)
    obtain ⟨e, he, -⟩ := hends x.name (name_mem_names hx)
    exact List.ne_nil_of_mem he
  · refine (targets_unionOf_perm paths).nodup_iff.2 ((nodup_ids_firsts [] paths.flatten).of_map.map_on ?_)
    intro e he f hf htarget
    obtain ⟨p, hp, he⟩ := hmem.1 he
    obtain ⟨q, hq, hf⟩ := hmem.1 hf
    exact hshare p hp q hq e he f hf htarget
  · obtain ⟨p, hp, f, hf, -, htarget⟩ := hon e he
    obtain ⟨t, -, hsimple⟩ := hwalks p hp
    rw [← htarget]
    rintro rfl
    exact (List.nodup_cons.1 hsimple).1 (List.mem_map_of_mem hf)
  · obtain ⟨p, hp, f, hf, hsource, -⟩ := hon e he
    obtain ⟨t, hwalk, -⟩ := hwalks p hp
    rw [← hsource]
    exact h.reflTransGen_of_walk hwalk (hleads p hp) f hf

/-- **The union of shortest paths from one source is a tree.** For costs that are not negative, it is empty, or no edge
leads to the source and one to every other name, ways lead from the source to all of them, and there is one edge less
than there are names. -/
theorem unionOfShortestPaths_outTree (hg : g.Built) (costOf : EdgeView ω → Binary64)
    (hcosts : ∀ e ∈ g.edgeViews, Cost.isValid (costOf e) = true) (s : String) (targets : List String) :
    ∃ union, g.unionOfShortestPaths costOf [s] targets = .ok union ∧
      (union.isEmpty = false → union.OutTree s ∧ union.edgeCount + 1 = union.vertexCount) := by
  have h := hg.wellFormed
  obtain ⟨paths, hpaths, hlists⟩ :=
    h.pathsBetween_lists (fun x (_ : x ∈ g.among [s]) => ValidFrom.of_edgeViews hcosts x.id) targets
  have hwalks : ∀ p ∈ paths, ∃ t, g.Walk s t p ∧ (s :: p.map (·.target)).Nodup := by
    intro p hp
    obtain ⟨⟨x, t⟩, hjoined, hp⟩ := (Matched.of_forall₂ hlists).exists_left hp
    obtain rfl := List.mem_singleton.1 (mem_joined.1 hjoined).1.1.2
    exact ⟨t, hp.walk, hp.simple⟩
  refine ⟨unionOf paths, unionOfShortestPaths_eq hpaths, fun hne => ?_⟩
  have htree := h.outTree_unionOf hwalks (h.pathsBetween_tree hpaths) hne
  exact ⟨htree, htree.edgeCount_eq (grown_unionOf paths).wellFormed⟩

theorem unionOfShortestPaths_outTree_detours :
    ∃ union, detours.unionOfShortestPaths weightCost ["S"] ["T", "B", "A", "S"] = .ok union ∧ union.OutTree "S" ∧
      union.names = ["S", "A", "B", "T"] ∧ union.edgeCount = 3 := by
  obtain ⟨union, hunion, htree⟩ := unionOfShortestPaths_outTree built_detours weightCost
    (fun e _ => (Binary64.isDistance_ofNat e.weight).isValid) "S" ["T", "B", "A", "S"]
  have hshape : (detours.unionOfShortestPaths weightCost ["S"] ["T", "B", "A", "S"]).toOption.map
      (fun u => (u.names, u.isEmpty)) = some (["S", "A", "B", "T"], false) := by decide +kernel
  rw [hunion] at hshape
  obtain ⟨hnames, hne⟩ := Prod.mk.inj (Option.some.inj hshape)
  obtain ⟨htree, hcount⟩ := htree hne
  have hvertices : union.vertexCount = 4 := by
    rw [vertexCount, ← List.length_map (·.name)]
    exact congrArg List.length hnames
  exact ⟨union, hunion, htree, hnames, by omega⟩

end Union

end Coupling.Graph
