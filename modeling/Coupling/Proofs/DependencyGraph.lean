/-
A dependency graph is the relations put together.

Its vertices are the entry points and then the ends of relations, each where it
comes first; there is one edge for each pair of ends, which carries the relations
between the two. Every relation of a search has a target, so none is left out, and
each lies on one edge (`dependencyGraph_compacts`).
-/
import Coupling.Proofs.Compaction
import Coupling.Proofs.Graph.Assembly
import Coupling.Proofs.Usage.Admissible
import Mathlib.Algebra.Ring.Nat

namespace Coupling

open Coupling.Graph

namespace DependencyGraph

/-! ## Relations as edges -/

/-- The edges of relations: one for each pair of ends, with the relations between them. -/
def edgesOf (rs : List Relation) : List (String × String × List Relation) :=
  (pairs rs).map fun ends => (ends.1, ends.2, rs.filter (·.Links ends))

theorem build_eq (entries : List TypeDef) (rs : List Relation) :
    build entries rs = (empty.addVertices (entries.map (·.fullName))).addEdges (edgesOf rs) := by
  unfold build addVertices addEdges edgesOf
  rw [compact_eq, List.foldl_map, List.foldl_map, List.foldl_map]
  rfl

theorem grown_build (entries : List TypeDef) (rs : List Relation) : (build entries rs).Grown := by
  rw [build_eq]
  exact (grown_empty.addVertices _).addEdges _

/-- The entry points, and then source and target of each pair, each name where it comes first. -/
theorem names_build (entries : List TypeDef) (rs : List Relation) :
    (build entries rs).names =
      (entries.map (·.fullName) ++ (pairs rs).flatMap fun ends => [ends.1, ends.2]).eraseDups := by
  have hentries := grown_empty.addVertices (ω := List Relation) (entries.map (·.fullName))
  rw [build_eq, hentries.names_addEdges (names_addVertices_empty _), edgesOf, List.flatMap_map]

/-- The edges are listed as pairs come first. -/
theorem contents_build (entries : List TypeDef) (rs : List Relation) :
    (build entries rs).edgeViews.map EdgeView.content = edgesOf rs := by
  have hentries := grown_empty.addVertices (ω := List Relation) (entries.map (·.fullName))
  have hnone : (empty.addVertices (entries.map (·.fullName)) : DependencyGraph).views = [] := by
    rw [views, edges_addVertices]
    rfl
  rw [(grown_build entries rs).edgeViews_eq, build_eq, List.map_reverse, hentries.wellFormed.contents_addEdges, hnone,
    List.map_nil, List.append_nil, List.reverse_reverse]

theorem mem_edgeViews_build {entries : List TypeDef} {rs : List Relation} {e : EdgeView (List Relation)}
    (he : e ∈ (build entries rs).edgeViews) :
    (e.source, e.target) ∈ pairs rs ∧ e.weight = rs.filter (·.Links (e.source, e.target)) := by
  have hcontent : e.content ∈ edgesOf rs := contents_build entries rs ▸ List.mem_map_of_mem he
  obtain ⟨ends, hends, heq⟩ := List.mem_map.1 hcontent
  obtain ⟨hsource, hrest⟩ := Prod.mk.inj heq
  obtain ⟨htarget, hweight⟩ := Prod.mk.inj hrest
  have hpair : ends = (e.source, e.target) := Prod.ext hsource htarget
  subst hpair
  exact ⟨hends, hweight.symm⟩

theorem ends_build (entries : List TypeDef) (rs : List Relation) :
    (build entries rs).edgeViews.map (fun e => (e.source, e.target)) = pairs rs := by
  have hends := congrArg (List.map fun z => (z.1, z.2.1)) (contents_build entries rs)
  rw [List.map_map, edgesOf, List.map_map] at hends
  exact hends.trans (List.map_id _)

/-- Between two names there is the edge of their relations, if there are any. -/
theorem weights_between_build (entries : List TypeDef) (rs : List Relation) (source target : String) :
    ((build entries rs).edgesBetween source target).map (·.weight) =
      if (source, target) ∈ pairs rs then [rs.filter (·.Links (source, target))] else [] := by
  have hwell := (grown_build entries rs).wellFormed
  have hlength : ((build entries rs).edgesBetween source target).length = (pairs rs).count (source, target) := by
    rw [hwell.length_edgesBetween, ← ends_build entries rs]
    exact ((edgeViews_perm _).map _).symm.count_eq _
  have hweights : ((build entries rs).edgesBetween source target).map (·.weight) =
      List.replicate ((pairs rs).count (source, target)) (rs.filter (·.Links (source, target))) := by
    refine List.eq_replicate_iff.2 ⟨by rw [List.length_map, hlength], fun w hw => ?_⟩
    obtain ⟨e, he, rfl⟩ := List.mem_map.1 hw
    rw [hwell.edgesBetween_eq] at he
    obtain ⟨he, hends⟩ := List.mem_filter.1 he
    simp only [Bool.and_eq_true, beq_iff_eq] at hends
    rw [(mem_edgeViews_build ((edgeViews_perm _).mem_iff.2 he)).2, hends.1, hends.2]
  rw [hweights]
  split
  · rename_i hmem
    rw [List.count_eq_one_of_mem (nodup_pairs rs) hmem]
    rfl
  · rename_i hmem
    rw [List.count_eq_zero_of_not_mem hmem]
    rfl

theorem weights_build (entries : List TypeDef) (rs : List Relation) :
    (build entries rs).edgeViews.flatMap (·.weight) = (compact rs).flatMap (·.relations) := by
  have hweights := congrArg (List.flatMap (·.2.2)) (contents_build entries rs)
  rw [List.flatMap_map, edgesOf, List.flatMap_map] at hweights
  rw [compact_eq, List.flatMap_map]
  exact hweights

/-! ## Dependency graphs -/

/-- A graph of entry points and relations, with an edge for each pair of ends that carries the relations between
them, so that no relation is lost or there twice. -/
structure Compacts (entries : List TypeDef) (rs : List Relation) (graph : DependencyGraph) : Prop where
  vertices : graph.names = (entries.map (·.fullName) ++ (pairs rs).flatMap fun ends => [ends.1, ends.2]).eraseDups
  edges : graph.edgeViews.map (fun e => (e.source, e.target)) = pairs rs
  between : ∀ source target, (graph.edgesBetween source target).map (·.weight) =
    if (source, target) ∈ pairs rs then [rs.filter (·.Links (source, target))] else []
  total : (graph.edgeViews.map (·.weight.length)).sum = rs.length
  once : ∀ x ∈ rs, ∃! e, e ∈ graph.edgeViews ∧ x ∈ e.weight

theorem compacts_build {entries : List TypeDef} {rs : List Relation}
    (htargets : ∀ x ∈ rs, x.target.isSome = true) : Compacts entries rs (build entries rs) where
  vertices := names_build entries rs
  edges := ends_build entries rs
  between := weights_between_build entries rs
  total := by
    have hall : rs.filter (·.target.isSome) = rs := List.filter_eq_self.2 htargets
    rw [← List.length_flatMap, weights_build, (relations_compact_perm rs).length_eq, hall]
  once x hx := by
    obtain ⟨ends, hends⟩ := Relation.isSome_target_iff.1 (htargets x hx)
    have hpair : ends ∈ (build entries rs).edgeViews.map (fun e => (e.source, e.target)) := by
      rw [ends_build]
      exact mem_pairs.2 ⟨x, hx, hends⟩
    obtain ⟨e, he, heq⟩ := List.mem_map.1 hpair
    have hon : ∀ e' ∈ (build entries rs).edgeViews, x ∈ e'.weight ↔ (e'.source, e'.target) = ends := by
      intro e' he'
      rw [(mem_edgeViews_build he').2, List.mem_filter, decide_eq_true_eq]
      exact ⟨fun h => h.2.unique hends, fun heq => ⟨hx, heq ▸ hends⟩⟩
    refine ⟨e, ⟨he, (hon e he).2 heq⟩, fun e' he' => ?_⟩
    have hdistinct : ((build entries rs).edgeViews.map (fun e => (e.source, e.target))).Nodup := by
      rw [ends_build]
      exact nodup_pairs rs
    exact List.inj_on_of_nodup_map hdistinct he'.1 he (((hon e' he'.1).1 he'.2).trans heq.symm)

end DependencyGraph

namespace Registry

open Usage

/-- The relations a dependency graph is made of: the usages of the entry points but for declared interfaces. -/
def dependencies (g : Registry) (o : Options) (entries : List TypeDef) : List Relation :=
  (g.usages o (entries.map (·.reference))).value.1.filter (·.kind != RelationKind.interface)

theorem isSome_target_of_dependencies {g : Registry} {o : Options} {entries : List TypeDef} :
    ∀ x ∈ g.dependencies o entries, x.target.isSome = true := by
  intro x hx
  have hx := List.mem_of_mem_filter hx
  rw [g.usages_value] at hx
  obtain ⟨t, ht, -⟩ := (admits_after g o _ _).reported x hx
  rw [ht, Option.isSome_some]

/-- **A dependency graph is the compacted usages** of its entry points. -/
theorem dependencyGraph_compacts (g : Registry) (o : Options) (entries : List TypeDef) :
    DependencyGraph.Compacts entries (g.dependencies o entries) (g.dependencyGraph o entries).value.1 :=
  DependencyGraph.compacts_build isSome_target_of_dependencies

end Registry

end Coupling
