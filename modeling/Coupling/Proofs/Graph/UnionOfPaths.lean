/-
The union of shortest paths.

The edges of all paths are taken once each, where they come first, and put into a new
graph with their ends and weights (`contents_unionOf`). So the union has the walks of the
paths, and no walk that the graph has not, at the same costs: between a source and a
target the shortest ones cost the same (`unionOfShortestPaths_exact`).
-/
import Coupling.Proofs.Graph.Assembly
import Coupling.Proofs.Graph.ShortestPaths

open Relation (ReflTransGen)

namespace Coupling.Graph

variable {ω : Type} {g : Graph ω}

/-! ## Each edge once -/

theorem firsts_sublist (seen : List Nat) (es : List (EdgeView ω)) : (firsts seen es).Sublist es := by
  induction es generalizing seen with
  | nil => exact .refl _
  | cons e es ih =>
    unfold firsts
    split
    · exact (ih seen).cons e
    · exact (ih (e.id :: seen)).cons_cons e

/-- The numbers left are those that were not seen before. -/
theorem mem_ids_firsts {seen : List Nat} {es : List (EdgeView ω)} {n : Nat} :
    n ∈ (firsts seen es).map (·.id) ↔ n ∈ es.map (·.id) ∧ n ∉ seen := by
  induction es generalizing seen with
  | nil => simp [firsts]
  | cons e es ih =>
    rw [List.map_cons, List.mem_cons]
    unfold firsts
    split
    · rename_i he
      rw [ih]
      refine and_congr_left fun hn => (or_iff_right ?_).symm
      rintro rfl
      exact hn (List.contains_iff_mem.1 he)
    · rename_i he
      rw [List.contains_iff_mem] at he
      rw [List.map_cons, List.mem_cons, ih, List.mem_cons, not_or]
      by_cases hn : n = e.id <;> simp [hn, he]

theorem nodup_ids_firsts (seen : List Nat) (es : List (EdgeView ω)) : ((firsts seen es).map (·.id)).Nodup := by
  induction es generalizing seen with
  | nil => exact List.nodup_nil
  | cons e es ih =>
    unfold firsts
    split
    · exact ih seen
    · exact List.nodup_cons.2 ⟨fun hmem => (mem_ids_firsts.1 hmem).2 List.mem_cons_self, ih (e.id :: seen)⟩

/-- Edges of a graph are the same if their numbers are. -/
theorem WellFormed.view_ext (h : g.WellFormed) {e f : EdgeView ω} (he : e ∈ g.views) (hf : f ∈ g.views)
    (hid : e.id = f.id) : e = f := by
  have hids : g.views.map (·.id) = g.edges.map (·.id) := List.map_map
  exact List.inj_on_of_nodup_map (hids ▸ h.edgeIds.nodup.of_append_left) he hf hid

/-- Of the edges of a graph, none is left out for good. -/
theorem WellFormed.mem_firsts (h : g.WellFormed) {es : List (EdgeView ω)} (hes : ∀ e ∈ es, e ∈ g.views)
    {e : EdgeView ω} : e ∈ firsts [] es ↔ e ∈ es := by
  refine ⟨fun he => (firsts_sublist [] es).subset he, fun he => ?_⟩
  have hid : e.id ∈ (firsts [] es).map (·.id) := mem_ids_firsts.2 ⟨List.mem_map_of_mem he, List.not_mem_nil⟩
  obtain ⟨f, hf, hsame⟩ := List.mem_map.1 hid
  rwa [← h.view_ext (hes f ((firsts_sublist [] es).subset hf)) (hes e he) hsame]

/-- The edges of walks, each once, are those that lie on one. -/
theorem WellFormed.mem_firsts_flatten (h : g.WellFormed) {paths : List (List (EdgeView ω))}
    (hwalks : ∀ p ∈ paths, ∃ x y, g.Walk x y p) {e : EdgeView ω} :
    e ∈ firsts [] paths.flatten ↔ ∃ p ∈ paths, e ∈ p := by
  rw [h.mem_firsts ?_, List.mem_flatten]
  intro f hf
  obtain ⟨p, hp, hf⟩ := List.mem_flatten.1 hf
  obtain ⟨x, y, hwalk⟩ := hwalks p hp
  exact h.mem_views_of_walk hwalk f hf

/-! ## The union of paths -/

/-- The graph of the edges of paths, each once. -/
def unionOf (paths : List (List (EdgeView ω))) : Graph ω :=
  empty.addEdges ((firsts [] paths.flatten).map EdgeView.content)

theorem unionOfShortestPaths_eq {γ : Type} [Cost γ] {costOf : EdgeView ω → γ} {sources targets : List String}
    {paths : List (List (EdgeView ω))} (hpaths : g.pathsBetween costOf sources targets = .ok paths) :
    g.unionOfShortestPaths costOf sources targets = .ok (unionOf paths) := by
  simp only [unionOfShortestPaths, hpaths, bind, Except.bind, pure, Except.pure, unionOf, addEdges, List.foldl_map]
  rfl

theorem grown_unionOf (paths : List (List (EdgeView ω))) : (unionOf paths).Grown := grown_empty.addEdges _

/-- The edges of the union are those of the paths, in their order. -/
theorem contents_unionOf (paths : List (List (EdgeView ω))) :
    (unionOf paths).edgeViews.map EdgeView.content = (firsts [] paths.flatten).map EdgeView.content := by
  rw [(grown_unionOf paths).edgeViews_eq, List.map_reverse, unionOf, wellFormed_empty.contents_addEdges,
    List.reverse_append, List.reverse_reverse]
  rfl

theorem mem_contents_unionOf {paths : List (List (EdgeView ω))} {z : String × String × ω} :
    z ∈ (unionOf paths).views.map EdgeView.content ↔ ∃ e ∈ firsts [] paths.flatten, e.content = z := by
  rw [← ((edgeViews_perm _).map _).mem_iff, contents_unionOf, List.mem_map]

/-- Only the ends of edges are names of the union. -/
theorem mem_names_unionOf {paths : List (List (EdgeView ω))} {n : String} :
    n ∈ (unionOf paths).names ↔ ∃ e ∈ (unionOf paths).edgeViews, e.source = n ∨ e.target = n := by
  have hends : (unionOf paths).edgeViews.flatMap (fun e => [e.source, e.target]) =
      ((firsts [] paths.flatten).map EdgeView.content).flatMap fun z => [z.1, z.2.1] := by
    rw [← contents_unionOf, List.flatMap_map]
    rfl
  have hnone : (empty : Graph ω).names = ([] : List String).eraseDups := rfl
  have hnames : (unionOf paths).names =
      (((firsts [] paths.flatten).map EdgeView.content).flatMap fun z => [z.1, z.2.1]).eraseDups :=
    grown_empty.names_addEdges hnone _
  rw [hnames, ← hends, List.mem_eraseDups, List.mem_flatMap]
  simp [eq_comm]

/-! ## Walks at the same cost -/

/-- A walk leads through another graph as well if there are edges of the same ends and weights. -/
theorem WellFormed.exists_walk_of_contents {g' : Graph ω} (h : g.WellFormed) (h' : g'.WellFormed) {x y : String}
    {p : List (EdgeView ω)} (hp : g.Walk x y p) (hcontents : ∀ e ∈ p, e.content ∈ g'.views.map EdgeView.content) :
    ∃ q, g'.Walk x y q ∧ q.map EdgeView.content = p.map EdgeView.content := by
  induction hp with
  | nil x => exact ⟨[], .nil x, rfl⟩
  | @cons x y e p he _ ih =>
    obtain ⟨hcontent, hrest⟩ := List.forall_mem_cons.1 hcontents
    obtain ⟨f, hf, hsame⟩ := List.mem_map.1 hcontent
    obtain ⟨q, hq, hcontents⟩ := ih hrest
    obtain ⟨hsource, hends⟩ := Prod.mk.inj hsame
    obtain ⟨htarget, -⟩ := Prod.mk.inj hends
    refine ⟨f :: q, .cons (h'.mem_outEdges.2 ⟨hf, ?_⟩) (htarget ▸ hq), ?_⟩
    · exact hsource.trans (h.mem_outEdges.1 he).2
    · rw [List.map_cons, List.map_cons, hsame, hcontents]

/-- What walks between two names cost at least, and one of them does. -/
def HasDistance (g : Graph ω) (costOf : EdgeView ω → Binary64) (x y : String) (d : ℕ∞) : Prop :=
  IsLeast {c | ∃ p, g.Walk x y p ∧ totalCost costOf p = c} d

theorem totalCost_congr (cost : ω → Binary64) {p q : List (EdgeView ω)}
    (h : q.map EdgeView.content = p.map EdgeView.content) :
    totalCost (fun e => cost e.weight) q = totalCost (fun e => cost e.weight) p := by
  have hvalues := congrArg (fun zs : List (String × String × ω) => (zs.map fun z => (cost z.2.2).value).sum) h
  rwa [List.map_map, List.map_map] at hvalues

/-- Among the edges of a graph, those of a shortest path are enough to keep the distance. -/
theorem WellFormed.hasDistance_of_contents {g' : Graph ω} (h : g.WellFormed) (h' : g'.WellFormed) (cost : ω → Binary64)
    {x y : String} {p : List (EdgeView ω)} (hp : g.Walk x y p)
    (hleast : ∀ {q}, g.Walk x y q → totalCost (fun e => cost e.weight) p ≤ totalCost (fun e => cost e.weight) q)
    (hin : ∀ e ∈ p, e.content ∈ g'.views.map EdgeView.content)
    (hsub : ∀ e ∈ g'.views, e.content ∈ g.views.map EdgeView.content) :
    ∃ d, g.HasDistance (fun e => cost e.weight) x y d ∧ g'.HasDistance (fun e => cost e.weight) x y d := by
  refine ⟨totalCost (fun e => cost e.weight) p, ⟨⟨p, hp, rfl⟩, ?_⟩, ?_, ?_⟩
  · rintro _ ⟨q, hq, rfl⟩
    exact hleast hq
  · obtain ⟨p', hp', hsame⟩ := h.exists_walk_of_contents h' hp hin
    exact ⟨p', hp', totalCost_congr cost hsame⟩
  · rintro _ ⟨q, hq, rfl⟩
    obtain ⟨q', hq', hsame⟩ :=
      h'.exists_walk_of_contents h hq fun e he => hsub e (h'.mem_views_of_walk hq e he)
    rw [← totalCost_congr cost hsame]
    exact hleast hq'

/-- **The union of shortest paths keeps distances.** For costs that are not negative and given by the weights:
- its edges are those that lie on a path, each once, with their ends and weights, and every name is an end of one;
- from a source to another name among the targets, where a way leads and costs add up exactly, the shortest walks
cost in the union what they cost in the graph. -/
theorem unionOfShortestPaths_exact (hg : g.Built) (cost : ω → Binary64)
    (hcosts : ∀ e ∈ g.edgeViews, Cost.isValid (cost e.weight) = true) (sources targets : List String) :
    let costOf := fun e : EdgeView ω => cost e.weight
    ∃ paths union, g.pathsBetween costOf sources targets = .ok paths ∧
      g.unionOfShortestPaths costOf sources targets = .ok union ∧
      (∃ es : List (EdgeView ω), (es.map (·.id)).Nodup ∧ (∀ e, e ∈ es ↔ ∃ p ∈ paths, e ∈ p) ∧
        union.edgeViews.map EdgeView.content = es.map EdgeView.content) ∧
      (∀ n ∈ union.names, ∃ e ∈ union.edgeViews, e.source = n ∨ e.target = n) ∧
      ∀ s ∈ sources, ∀ t ∈ targets, t ≠ s → ReflTransGen g.Leads s t → g.AddsExactly costOf s →
        ∃ d, g.HasDistance costOf s t d ∧ union.HasDistance costOf s t d := by
  intro costOf
  have h := hg.wellFormed
  obtain ⟨paths, hpaths, hlists⟩ :=
    h.pathsBetween_lists (fun x (_ : x ∈ g.among sources) => ValidFrom.of_edgeViews hcosts x.id) targets
  have hwalks : ∀ p ∈ paths, ∃ x y, g.Walk x y p := by
    intro p hp
    obtain ⟨⟨x, y⟩, -, hp⟩ := (Matched.of_forall₂ hlists).exists_left hp
    exact ⟨x, y, hp.walk⟩
  have hmem : ∀ e, e ∈ firsts [] paths.flatten ↔ ∃ p ∈ paths, e ∈ p := fun e => h.mem_firsts_flatten hwalks
  refine ⟨paths, unionOf paths, hpaths, unionOfShortestPaths_eq hpaths,
    ⟨firsts [] paths.flatten, nodup_ids_firsts _ _, hmem, contents_unionOf paths⟩, fun n => mem_names_unionOf.1,
    fun s hs t ht hne hway hexact => ?_⟩
  obtain ⟨q, hq⟩ := exists_walk_iff.2 hway
  obtain ⟨p, hp, hshortest⟩ := h.exists_shortest hlists hs ht hne.symm hq
  have hdistance : ∀ {q}, g.Walk s t q → (costAlong costOf q).IsDistance := fun hq =>
    PathSearch.isDistance_costAlong fun e he => hcosts e ((edgeViews_perm g).mem_iff.2 (h.mem_views_of_walk hq e he))
  refine h.hasDistance_of_contents (grown_unionOf paths).wellFormed cost hshortest.walk
    (hshortest.totalCost_le hexact hdistance) (fun e he => ?_) fun e he => ?_
  · exact mem_contents_unionOf.2 ⟨e, (hmem e).2 ⟨p, hp, he⟩, rfl⟩
  · obtain ⟨f, hf, hsame⟩ := mem_contents_unionOf.1 (List.mem_map_of_mem he)
    obtain ⟨q, hq, hf⟩ := (hmem f).1 hf
    obtain ⟨x, y, hwalk⟩ := hwalks q hq
    exact hsame ▸ List.mem_map_of_mem (h.mem_views_of_walk hwalk f hf)

theorem unionOfShortestPaths_exact_detours :
    ∃ union, detours.unionOfShortestPaths weightCost ["T", "S", "S"] ["T", "A"] = .ok union ∧
      union.names = ["S", "A", "B", "T"] ∧ union.edges.map (·.weight) = [3, 0, 1] ∧
      ∃ d, detours.HasDistance weightCost "S" "T" d ∧ union.HasDistance weightCost "S" "T" d := by
  obtain ⟨paths, union, -, hunion, -, -, hdistances⟩ := unionOfShortestPaths_exact built_detours Binary64.ofNat
    (fun e _ => (Binary64.isDistance_ofNat e.weight).isValid) ["T", "S", "S"] ["T", "A"]
  have hshape : (detours.unionOfShortestPaths weightCost ["T", "S", "S"] ["T", "A"]).toOption.map
      (fun u => (u.names, u.edges.map (·.weight))) = some (["S", "A", "B", "T"], [3, 0, 1]) := by decide +kernel
  have hleads : detours.Leads "S" "T" := by decide +kernel
  rw [show detours.unionOfShortestPaths weightCost ["T", "S", "S"] ["T", "A"] = .ok union from hunion] at hshape
  obtain ⟨hnames, hweights⟩ := Prod.mk.inj (Option.some.inj hshape)
  exact ⟨union, hunion, hnames, hweights,
    hdistances "S" (by decide) "T" (by decide) (by decide) (.single hleads) addsExactly_detours⟩

end Coupling.Graph
