/-
Shortest paths are shortest.

A search leaves for each vertex found the edge by which it was reached last, and these
edges lead back to the source along the path whose cost is the distance known
(`Progress.pathTo_eq`). With the queue empty no walk is shorter. Adding costs up rounds,
but keeps their order, so this holds for costs as they are added up; where sums are exact,
as for whole numbers that stay below `2^53`, it holds for what the costs are worth.
Paths are listed one for each pair of names that is joined, in the order of the graph
(`pathsBetween_lists`).
-/
import Coupling.Proofs.Graph.PathSearch
import Coupling.Proofs.Graph.Reachability
import Coupling.Proofs.Matched
import Coupling.Proofs.Number.Binary64
import Coupling.Proofs.Outcome
import Mathlib.Algebra.Order.BigOperators.Group.List
import Mathlib.Data.List.ProdSigma

open Relation (ReflTransGen)

namespace Coupling

namespace Graph

open RankedCost (IsDistance rank)

variable {ω γ : Type} [Cost γ] {g : Graph ω} {costOf : EdgeView ω → γ} {source : Nat}

/-- Where all costs are valid, those that can be reached are. -/
theorem ValidFrom.of_edgeViews (hcosts : ∀ e ∈ g.edgeViews, Cost.isValid (costOf e) = true) (source : Nat) :
    g.ValidFrom costOf source := fun _ _ _ _ he =>
  hcosts _ ((edgeViews_perm g).mem_iff.2 (List.mem_map_of_mem (mem_outOf.1 he).1))

/-! ## Searches from one source and from many -/

/-- The paths from a source are there if the search for them ends well, and its error is theirs. -/
theorem pathsFrom_error_iff {targets : List Vertex} {x : Vertex} {err : Error} :
    g.pathsFrom costOf targets x = .error err ↔ g.arrivalsFrom costOf x.id = .error err := by
  cases h : g.arrivalsFrom costOf x.id <;> simp [pathsFrom, h, bind, Except.bind, pure, Except.pure]

/-- Paths between names are those from each source, unless the search from one of these fails. -/
theorem pathsBetween_ok_or_error (g : Graph ω) (costOf : EdgeView ω → γ) (sources targets : List String) :
    (∃ found, g.pathsBetween costOf sources targets = .ok found.flatten ∧
        List.Forall₂ (fun x ps => g.pathsFrom costOf (g.among targets) x = .ok ps) (g.among sources) found) ∨
      ∃ x ∈ g.among sources, ∃ err, g.arrivalsFrom costOf x.id = .error err ∧
        g.pathsBetween costOf sources targets = .error err := by
  rcases mapM_ok_or_error (g.pathsFrom costOf (g.among targets)) (g.among sources) with
    ⟨found, hfound, hall⟩ | ⟨x, hx, err, hfx, herror⟩
  · exact .inl ⟨found, by simp [pathsBetween, hfound, bind, Except.bind, pure, Except.pure], hall⟩
  · exact .inr ⟨x, hx, err, pathsFrom_error_iff.1 hfx, by simp [pathsBetween, herror, bind, Except.bind]⟩

variable [RankedCost γ]

/-! ## Paths read back -/

namespace PathSearch

variable {s : PathSearch γ} {settled : List Nat} {paths : Nat → List (Edge ω)} {pending : List (Edge ω)} {level v : Nat}
  {d : γ}

/-- The vertices on the path to a vertex have distances too. -/
theorem Progress.exists_distance_on_path (h : Progress g costOf source s settled paths pending level)
    (hd : s.distances.get? v = some d) {u : Nat} (hu : u ∈ source :: (paths v).map (·.target)) :
    ∃ c, s.distances.get? u = some c := by
  rcases (h.found v d hd).through u hu with rfl | hu
  · exact ⟨d, hd⟩
  · obtain ⟨c, hc, -⟩ := h.near u hu
    exact ⟨c, hc⟩

/-- A path has no more edges than there are arrivals. -/
theorem Progress.length_le_size (h : Progress g costOf source s settled paths pending level)
    (hd : s.distances.get? v = some d) : (paths v).length ≤ s.arrivals.size := by
  obtain ⟨hroot, hnodup⟩ := List.nodup_cons.1 (h.found v d hd).simple
  have hkeys : (paths v).map (·.target) ⊆ s.arrivals.keys := by
    intro u hu
    obtain ⟨c, hc⟩ := h.exists_distance_on_path hd (List.mem_cons_of_mem _ hu)
    obtain ⟨e, -, -, -, hid, -⟩ := (h.found u c hc).arrival fun heq => hroot (heq ▸ hu)
    exact List.mem_map_of_mem (SortedMap.mem_entries_of_get? hid)
  have hle := (List.subperm_of_subset hnodup hkeys).length_le
  simpa [SortedMap.keys, SortedMap.size] using hle

/-- Arrivals lead back along the path. -/
theorem Progress.pathBack_eq (h : Progress g costOf source s settled paths pending level) (hg : g.WellFormed)
    {steps : Nat} (hd : s.distances.get? v = some d) (hsteps : (paths v).length ≤ steps) :
    g.pathBack s.arrivals source steps v = some (paths v).reverse := by
  induction steps generalizing v d with
  | zero =>
    have hnil : paths v = [] := List.eq_nil_of_length_eq_zero (Nat.le_zero.1 hsteps)
    have hv : v = source := by
      by_contra hne
      obtain ⟨e, -, -, -, -, hpath⟩ := (h.found v d hd).arrival hne
      simp [hpath] at hnil
    rw [pathBack, if_pos hv, hnil]
    rfl
  | succ steps ih =>
    unfold pathBack
    split
    · rename_i hv
      subst hv
      rw [(h.found v d hd).walk.eq_nil_of_nodup (h.found v d hd).simple]
      rfl
    · rename_i hne
      obtain ⟨e, he, -, hsource, hid, hpath⟩ := (h.found v d hd).arrival hne
      obtain ⟨c, hc, -⟩ := h.near e.source hsource
      rw [hpath, List.length_append, List.length_singleton] at hsteps
      have hback := ih hc (by omega)
      rw [hid, hpath]
      simp [hg.find?_edge he, hback]

theorem Progress.pathTo_eq (h : Progress g costOf source s settled paths pending level) (hg : g.WellFormed)
    (hd : s.distances.get? v = some d) : g.pathTo s.arrivals source v = (paths v).map g.view := by
  rw [pathTo, h.pathBack_eq hg hd (h.length_le_size hd), Option.getD_some, List.reverse_reverse]

theorem Progress.contains_iff (h : Progress g costOf source s settled paths pending level) (hv : v ≠ source) :
    s.arrivals.contains v = true ↔ ∃ d, s.distances.get? v = some d := by
  rw [SortedMap.contains, Option.isSome_iff_exists]
  constructor
  · rintro ⟨id, hid⟩
    exact h.arrived v id hid
  · rintro ⟨d, hd⟩
    obtain ⟨e, -, -, -, hid, -⟩ := (h.found v d hd).arrival hv
    exact ⟨e.id, hid⟩

end PathSearch

/-- A path that repeats no vertex and is no longer than any walk between its ends. -/
structure IsShortest (g : Graph ω) (costOf : EdgeView ω → γ) (x y : String) (p : List (EdgeView ω)) : Prop where
  walk : g.Walk x y p
  simple : (x :: p.map (·.target)).Nodup
  least : ∀ q, g.Walk x y q → rank (costAlong costOf p) ≤ rank (costAlong costOf q)

/-- A search finds the vertices that walks lead to, and shortest paths to them. -/
theorem WellFormed.arrivalsFrom_ok (h : g.WellFormed) (hsource : source ∈ g.ids) (hvalid : g.ValidFrom costOf source) :
    ∃ arrivals, g.arrivalsFrom costOf source = .ok arrivals ∧ ∀ v ∈ g.ids, v ≠ source →
      (arrivals.contains v = true ↔ ∃ q, g.Walk (g.nameOf source) (g.nameOf v) q) ∧
      (arrivals.contains v = true →
        g.IsShortest costOf (g.nameOf source) (g.nameOf v) (g.pathTo arrivals source v)) := by
  obtain ⟨s, ⟨hqueue, settled, paths, level, hp, hat⟩, hs⟩ | ⟨v, p, hwalk, e, he, hbad, -⟩ :=
    finished_or_refused g costOf source
  case inr =>
    rw [hvalid v p hwalk e he] at hbad
    cases hbad
  refine ⟨s.arrivals, hs, fun v hv hne => ?_⟩
  have hleast : ∀ q, g.Walk (g.nameOf source) (g.nameOf v) q →
      ∃ d, s.distances.get? v = some d ∧ rank d ≤ rank (costAlong costOf q) := by
    intro q hq
    obtain ⟨w, p, hwalk, rfl, hw, hname⟩ := h.exists_idWalk hsource hq
    obtain rfl := (h.name_eq_iff (h.mem_vertices hw) (h.mem_vertices hv)).1 hname
    exact hp.exists_distance hqueue hat hwalk
  have hshortest : ∀ {d}, s.distances.get? v = some d →
      g.IsShortest costOf (g.nameOf source) (g.nameOf v) (g.pathTo s.arrivals source v) := by
    intro d hd
    have hfound := hp.found v d hd
    rw [hp.pathTo_eq h hd]
    refine ⟨(h.walk_of_idWalk hfound.walk hsource).2, h.nodup_names hfound.walk hsource hfound.simple, fun q hq => ?_⟩
    obtain ⟨d', hd', hle⟩ := hleast q hq
    obtain rfl := Option.some.inj (hd.symm.trans hd')
    rw [hfound.cost]
    exact hle
  rw [hp.contains_iff hne]
  refine ⟨⟨?_, ?_⟩, ?_⟩
  · rintro ⟨d, hd⟩
    exact ⟨_, (hshortest hd).walk⟩
  · rintro ⟨q, hq⟩
    obtain ⟨d, hd, -⟩ := hleast q hq
    exact ⟨d, hd⟩
  · rintro ⟨d, hd⟩
    exact hshortest hd

/-! ## Paths between names -/

/-- One shortest path each to the targets, in their order, that are not the source and that walks lead to. -/
def ListsShortest (g : Graph ω) (costOf : EdgeView ω → γ) (targets : List Vertex) (x : Vertex)
    (ps : List (List (EdgeView ω))) : Prop :=
  ∃ (reached : List Vertex) (path : Vertex → List (EdgeView ω)), ps = reached.map path ∧ reached.Sublist targets ∧
    (∀ t ∈ targets, t ∈ reached ↔ t.id ≠ x.id ∧ ∃ q, g.Walk x.name t.name q) ∧
    ∀ t ∈ reached, g.IsShortest costOf x.name t.name (path t)

theorem WellFormed.pathsFrom_ok (h : g.WellFormed) {targets : List Vertex} (htargets : ∀ t ∈ targets, t ∈ g.vertices)
    {x : Vertex} (hx : x ∈ g.vertices) (hvalid : g.ValidFrom costOf x.id) :
    ∃ ps, g.pathsFrom costOf targets x = .ok ps ∧ g.ListsShortest costOf targets x ps := by
  obtain ⟨arrivals, harrivals, hfound⟩ := h.arrivalsFrom_ok (id_mem_ids hx) hvalid
  have hreached : ∀ {t}, t ∈ targets → t.id ≠ x.id →
      (arrivals.contains t.id = true ↔ ∃ q, g.Walk x.name t.name q) ∧
      (arrivals.contains t.id = true → g.IsShortest costOf x.name t.name (g.pathTo arrivals x.id t.id)) := by
    intro t ht hne
    have hfound := hfound t.id (id_mem_ids (htargets t ht)) hne
    rwa [h.nameOf_of_mem hx, h.nameOf_of_mem (htargets t ht)] at hfound
  have hmem : ∀ {t}, t ∈ targets.filter (fun t => t.id != x.id && arrivals.contains t.id) ↔
      t ∈ targets ∧ t.id ≠ x.id ∧ arrivals.contains t.id = true := by
    intro t
    rw [List.mem_filter, Bool.and_eq_true, bne_iff_ne]
  refine ⟨(targets.filter fun t => t.id != x.id && arrivals.contains t.id).map fun t => g.pathTo arrivals x.id t.id, ?_,
    _, _, rfl, List.filter_sublist, fun t ht => ?_, fun t ht => ?_⟩
  · have hall : ∀ p ∈ (targets.filter fun t => t.id != x.id && arrivals.contains t.id).map
        (fun t => g.pathTo arrivals x.id t.id), (!p.isEmpty) = true := by
      intro p hp
      obtain ⟨t, ht, rfl⟩ := List.mem_map.1 hp
      obtain ⟨ht, hne, hcontains⟩ := hmem.1 ht
      have hname : x.name ≠ t.name := fun heq => hne ((h.name_eq_iff hx (htargets t ht)).1 heq).symm
      simpa using ((hreached ht hne).2 hcontains).walk.ne_nil hname
    simp only [pathsFrom, harrivals, bind, Except.bind, pure, Except.pure]
    rw [List.filter_eq_self.2 hall]
  · rw [hmem, and_iff_right ht]
    exact and_congr_right fun hne => (hreached ht hne).1
  · obtain ⟨ht, hne, hcontains⟩ := hmem.1 ht
    exact (hreached ht hne).2 hcontains

/-- Which targets have paths says what the list of paths is. -/
theorem ListsShortest.forall₂ {targets : List Vertex} {x : Vertex} {ps : List (List (EdgeView ω))}
    (hps : g.ListsShortest costOf targets x ps) (hnodup : targets.Nodup) {chosen : Vertex → Bool}
    (hchosen : ∀ t ∈ targets, chosen t = true ↔ t.id ≠ x.id ∧ ∃ q, g.Walk x.name t.name q) :
    List.Forall₂ (fun t p => g.IsShortest costOf x.name t.name p) (targets.filter chosen) ps := by
  obtain ⟨reached, path, rfl, hsub, hreached, hshortest⟩ := hps
  have hmem : ∀ t ∈ targets, t ∈ reached ↔ chosen t = true := fun t ht => (hreached t ht).trans (hchosen t ht).symm
  have hle : (targets.filter chosen).length ≤ reached.length := by
    refine (List.subperm_of_subset (hnodup.filter _) fun t ht => ?_).length_le
    obtain ⟨ht, hyes⟩ := List.mem_filter.1 ht
    exact (hmem t ht).2 hyes
  have hkept := hsub.filter chosen
  rw [List.filter_eq_self.2 fun t ht => (hmem t (hsub.subset ht)).1 ht] at hkept
  rw [← hkept.eq_of_length_le hle]
  exact List.forall₂_map_right_iff.2 (List.forall₂_same.2 hshortest)

/-- Walks lead where ways do. -/
theorem exists_walk_iff {x y : String} : (∃ p, g.Walk x y p) ↔ ReflTransGen g.Leads x y := by
  constructor
  · rintro ⟨p, hp⟩
    induction hp with
    | nil => exact .refl
    | cons he _ ih => exact .head ⟨_, he, rfl⟩ ih
  · intro hway
    induction hway using ReflTransGen.head_induction_on with
    | refl => exact ⟨[], .nil _⟩
    | head hstep _ ih =>
      obtain ⟨e, he, rfl⟩ := hstep
      obtain ⟨p, hp⟩ := ih
      exact ⟨e :: p, .cons he hp⟩

/-- The pairs of a source and another name, among the targets, that is reachable from it; by the place of the
source in the graph and then by that of the target. -/
def joined (g : Graph ω) (sources targets : List String) : List (String × String) :=
  (g.names.filter (sources.contains ·) ×ˢ g.names.filter (targets.contains ·)).filter fun z =>
    z.2 != z.1 && (g.reachable [z.1]).contains z.2

theorem mem_joined {sources targets : List String} {x y : String} :
    (x, y) ∈ g.joined sources targets ↔
      ((x ∈ g.names ∧ x ∈ sources) ∧ y ∈ g.names ∧ y ∈ targets) ∧ y ≠ x ∧ y ∈ g.reachable [x] := by
  simp only [joined, List.mem_filter, List.mem_product, Bool.and_eq_true, bne_iff_ne, List.contains_iff_mem]

theorem WellFormed.joined_nodup (h : g.WellFormed) (sources targets : List String) :
    (g.joined sources targets).Nodup :=
  ((h.names.filter _).product (h.names.filter _)).filter _

/-- The pairs, source by source. -/
theorem joined_eq (g : Graph ω) (sources targets : List String) :
    g.joined sources targets = (g.among sources).flatMap fun x =>
      ((g.among targets).filter fun t => t.name != x.name && (g.reachable [x.name]).contains t.name).map fun t =>
        (x.name, t.name) := by
  have hproduct : g.names.filter (sources.contains ·) ×ˢ g.names.filter (targets.contains ·) =
      (g.among sources).flatMap fun x => (g.among targets).map fun t => (x.name, t.name) := by
    rw [← g.names_among, ← g.names_among]
    show ((g.among sources).map (·.name)).flatMap (fun x => ((g.among targets).map (·.name)).map (Prod.mk x)) = _
    simp only [List.flatMap_map, List.map_map]
    rfl
  rw [joined, hproduct, List.filter_flatMap]
  simp only [List.filter_map]
  rfl

/-- The paths from a source are shortest ones, one for each target that is joined to it. -/
theorem WellFormed.pathsFrom_lists (h : g.WellFormed) {x : Vertex} (hx : x ∈ g.vertices)
    (hvalid : g.ValidFrom costOf x.id) (targets : List String) :
    ∃ ps, g.pathsFrom costOf (g.among targets) x = .ok ps ∧
      List.Forall₂ (fun z p => g.IsShortest costOf z.1 z.2 p)
        (((g.among targets).filter fun t => t.name != x.name && (g.reachable [x.name]).contains t.name).map fun t =>
          (x.name, t.name)) ps := by
  have hnodup : (g.among targets).Nodup := (h.names.of_map _).filter _
  obtain ⟨ps, hps, hlists⟩ :=
    h.pathsFrom_ok (fun t (ht : t ∈ g.among targets) => (mem_among.1 ht).1) hx hvalid
  refine ⟨ps, hps, List.forall₂_map_left_iff.2 (hlists.forall₂ hnodup fun t ht => ?_)⟩
  rw [Bool.and_eq_true, bne_iff_ne, ne_eq, h.name_eq_iff (mem_among.1 ht).1 hx, List.contains_iff_mem,
    h.mem_reachable, exists_walk_iff]
  simp [name_mem_names hx]

/-- **The paths between names are shortest ones**, one for each pair that is joined. -/
theorem WellFormed.pathsBetween_lists (h : g.WellFormed) {sources : List String}
    (hvalid : ∀ x ∈ g.among sources, g.ValidFrom costOf x.id) (targets : List String) :
    ∃ paths, g.pathsBetween costOf sources targets = .ok paths ∧
      List.Forall₂ (fun z p => g.IsShortest costOf z.1 z.2 p) (g.joined sources targets) paths := by
  have hlists := fun x hx => h.pathsFrom_lists (mem_among.1 hx).1 (hvalid x hx) targets
  rcases g.pathsBetween_ok_or_error costOf sources targets with ⟨found, hfound, hall⟩ | ⟨x, hx, err, herror, -⟩
  · refine ⟨found.flatten, hfound, ?_⟩
    rw [g.joined_eq]
    refine List.rel_flatten (List.forall₂_map_left_iff.2 (((List.forall₂_and_left _ _).2 ⟨hlists, hall⟩).imp ?_))
    rintro x ps ⟨⟨ps', hps', hforall⟩, hps⟩
    obtain rfl := Except.ok.inj (hps'.symm.trans hps)
    exact hforall
  · obtain ⟨ps, hps, -⟩ := hlists x hx
    rw [pathsFrom_error_iff.2 herror] at hps
    cases hps

/-- A pair of a source and a target that a walk joins has its path. -/
theorem WellFormed.exists_shortest (h : g.WellFormed) {sources targets : List String} {paths : List (List (EdgeView ω))}
    (hlists : List.Forall₂ (fun z p => g.IsShortest costOf z.1 z.2 p) (g.joined sources targets) paths) {x y : String}
    (hx : x ∈ sources) (hy : y ∈ targets) (hne : x ≠ y) {q : List (EdgeView ω)} (hq : g.Walk x y q) :
    ∃ p ∈ paths, g.IsShortest costOf x y p := by
  -- a walk between different names has a first edge and a last one, so both are vertices
  obtain ⟨hxname, hyname⟩ := h.mem_names_of_walk hq hne
  have hway := h.mem_reachable.2 ⟨x, List.mem_singleton_self x, hxname, exists_walk_iff.1 ⟨q, hq⟩⟩
  exact (Matched.of_forall₂ hlists).exists_right (mem_joined.2 ⟨⟨⟨hxname, hx⟩, hyname, hy⟩, hne.symm, hway⟩)

/-- Each path joins a source and a target, and each pair that a walk joins has its path. -/
theorem WellFormed.pathsBetween_ok (h : g.WellFormed) {sources : List String}
    (hvalid : ∀ x ∈ g.among sources, g.ValidFrom costOf x.id) (targets : List String) :
    ∃ paths, g.pathsBetween costOf sources targets = .ok paths ∧
      (∀ p ∈ paths, ∃ x ∈ sources, ∃ y ∈ targets, x ≠ y ∧ g.IsShortest costOf x y p) ∧
      ∀ x ∈ sources, ∀ y ∈ targets, x ≠ y → ∀ q, g.Walk x y q → ∃ p ∈ paths, g.Walk x y p := by
  obtain ⟨paths, hpaths, hlists⟩ := h.pathsBetween_lists hvalid targets
  refine ⟨paths, hpaths, fun p hp => ?_, fun x hx y hy hne q hq => ?_⟩
  · obtain ⟨⟨x, y⟩, hxy, hp⟩ := (Matched.of_forall₂ hlists).exists_left hp
    obtain ⟨⟨hx, hy⟩, hne, -⟩ := mem_joined.1 hxy
    exact ⟨x, hx.2, y, hy.2, hne.symm, hp⟩
  · obtain ⟨p, hp, hshortest⟩ := h.exists_shortest hlists hx hy hne hq
    exact ⟨p, hp, hshortest.walk⟩

end Graph

/-! ## Costs that are doubles -/

instance : RankedCost Binary64 where
  IsDistance := Binary64.IsDistance
  rank := Binary64.magnitude
  isDistance_zero := Binary64.isDistance_ofWord (Nat.zero_le _)
  rank_zero := Binary64.magnitude_ofWord (Nat.zero_le _)
  isDistance_add := Binary64.IsDistance.add
  le_rank_add := Binary64.IsDistance.le_add
  rank_add_le := Binary64.IsDistance.add_le_add
  less_iff := Binary64.IsDistance.lt_iff
  compare_eq := Binary64.IsDistance.totalCompare_eq

namespace Graph

variable {ω : Type} {g : Graph ω} {costOf : EdgeView ω → Binary64}

/-- What the edges of a path cost together. -/
def totalCost (costOf : EdgeView ω → Binary64) (p : List (EdgeView ω)) : ℕ∞ := (p.map fun e => (costOf e).value).sum

/-- Costs add up exactly along the paths from a name that repeat no vertex. -/
def AddsExactly (g : Graph ω) (costOf : EdgeView ω → Binary64) (x : String) : Prop :=
  ∀ y p, g.Walk x y p → (x :: p.map (·.target)).Nodup → (costAlong costOf p).value = totalCost costOf p

theorem costAlong_ofNat {n : EdgeView ω → Nat} {p : List (EdgeView ω)} (hcost : ∀ e ∈ p, costOf e = .ofNat (n e))
    (hsum : (p.map n).sum < 2 ^ 53) :
    costAlong costOf p = .ofNat (p.map n).sum ∧ totalCost costOf p = ((p.map n).sum * Binary64.unitScale : Nat) := by
  induction p using List.reverseRecOn with
  | nil => exact ⟨Binary64.ofNat_zero.symm, by simp [totalCost]⟩
  | append_singleton p e ih =>
    rw [List.map_append, List.sum_append, List.map_singleton, List.sum_singleton] at hsum ⊢
    have he := hcost e (by simp)
    obtain ⟨hcost, htotal⟩ := ih (fun e he => hcost e (by simp [he])) (by omega)
    constructor
    · rw [costAlong_concat, hcost, he]
      exact Binary64.add_ofNat hsum
    · rw [totalCost, List.map_append, List.sum_append, List.map_singleton, List.sum_singleton, he,
        Binary64.value_ofNat (by omega), Nat.add_mul, Nat.cast_add]
      exact congrArg (· + _) htotal

/-- Whole numbers that stay below `2^53` along these paths add up exactly. -/
theorem WellFormed.addsExactly_of_naturals (h : g.WellFormed) {n : EdgeView ω → Nat} {x : String}
    (hcost : ∀ e ∈ g.views, costOf e = .ofNat (n e))
    (hsum : ∀ y p, g.Walk x y p → (x :: p.map (·.target)).Nodup → (p.map n).sum < 2 ^ 53) : g.AddsExactly costOf x := by
  intro y p hp hsimple
  have hlt := hsum y p hp hsimple
  obtain ⟨halong, htotal⟩ := costAlong_ofNat (fun e he => hcost e (h.mem_views_of_walk hp e he)) hlt
  rw [halong, htotal, Binary64.value_ofNat hlt]

/-- A path that repeats no vertex repeats no edge, so its sum is at most that of all edges. -/
theorem WellFormed.sum_le_sum_views (h : g.WellFormed) (n : EdgeView ω → Nat) {x y : String} {p : List (EdgeView ω)}
    (hp : g.Walk x y p) (hsimple : (x :: p.map (·.target)).Nodup) : (p.map n).sum ≤ (g.views.map n).sum := by
  have hnodup : p.Nodup := (List.nodup_cons.1 hsimple).2.of_map
  obtain ⟨p', hperm, hsub⟩ := List.subperm_of_subset hnodup (h.mem_views_of_walk hp)
  rw [← (hperm.map n).sum_eq]
  exact (hsub.map n).sum_le_sum fun _ _ => Nat.zero_le _

/-- Where costs add up exactly, what is shortest as doubles add up is worth least. -/
theorem IsShortest.totalCost_le {x y : String} {p q : List (EdgeView ω)} (hp : g.IsShortest costOf x y p)
    (hexact : g.AddsExactly costOf x) (hdistance : ∀ {q}, g.Walk x y q → (costAlong costOf q).IsDistance)
    (hq : g.Walk x y q) : totalCost costOf p ≤ totalCost costOf q := by
  -- a walk is worth at least as much as the path that it has without repetitions
  obtain ⟨q', hsub, hq', hsimple⟩ := hq.exists_simple
  calc totalCost costOf p = (costAlong costOf p).value := (hexact y p hp.walk hp.simple).symm
    _ ≤ (costAlong costOf q').value := (hdistance hq').value_le_value (hp.least q' hq')
    _ = totalCost costOf q' := hexact y q' hq' hsimple
    _ ≤ totalCost costOf q := (hsub.map _).sum_le_sum fun _ _ => zero_le

/-- **Shortest paths are shortest.** For costs that are not negative, the paths between names are walks from a
source to another name among the targets, at most as long as any walk between the two: as the costs are added
up, and, where they add up exactly, in what they are worth together. A pair that some walk joins has its path. -/
theorem pathsBetween_shortest (hg : g.Built) (costOf : EdgeView ω → Binary64)
    (hcosts : ∀ e ∈ g.edgeViews, Cost.isValid (costOf e) = true) (sources targets : List String) :
    ∃ paths, g.pathsBetween costOf sources targets = .ok paths ∧
      (∀ p ∈ paths, ∃ x ∈ sources, ∃ y ∈ targets, x ≠ y ∧ g.Walk x y p ∧
        (∀ q, g.Walk x y q → (costAlong costOf q).lt (costAlong costOf p) = false) ∧
        (g.AddsExactly costOf x → ∀ q, g.Walk x y q → totalCost costOf p ≤ totalCost costOf q)) ∧
      ∀ x ∈ sources, ∀ y ∈ targets, x ≠ y → ∀ q, g.Walk x y q → ∃ p ∈ paths, g.Walk x y p := by
  have h := hg.wellFormed
  have hvalid : ∀ e ∈ g.views, Cost.isValid (costOf e) = true := fun e he =>
    hcosts e ((edgeViews_perm g).mem_iff.2 he)
  have hfrom : ∀ x ∈ g.among sources, g.ValidFrom costOf x.id := fun x _ v p _ e he =>
    hvalid _ (List.mem_map_of_mem (mem_outOf.1 he).1)
  obtain ⟨paths, hpaths, hshortest, hall⟩ := h.pathsBetween_ok hfrom targets
  have hdistance : ∀ {x y q}, g.Walk x y q → (costAlong costOf q).IsDistance := fun hq =>
    PathSearch.isDistance_costAlong fun e he => hvalid e (h.mem_views_of_walk hq e he)
  refine ⟨paths, hpaths, fun p hp => ?_, hall⟩
  obtain ⟨x, hx, y, hy, hne, hp⟩ := hshortest p hp
  refine ⟨x, hx, y, hy, hne, hp.walk, fun q hq => ?_, fun hexact q hq => ?_⟩
  · refine Bool.eq_false_iff.2 fun hlt => ?_
    exact absurd (((hdistance hq).lt_iff (hdistance hp.walk)).1 hlt) (Nat.not_lt.2 (hp.least q hq))
  · exact hp.totalCost_le hexact hdistance hq

/-- Two edges of different cost side by side, a loop and a cycle that cost nothing, and a longer way with one edge. -/
def detours : Graph Nat :=
  let g := (empty.addEdge "S" "A" 2).2
  let g := (g.addEdge "S" "A" 1).2
  let g := (g.addEdge "A" "A" 0).2
  let g := (g.addEdge "A" "B" 0).2
  let g := (g.addEdge "B" "A" 0).2
  let g := (g.addEdge "B" "T" 3).2
  (g.addEdge "S" "T" 5).2

theorem built_detours : detours.Built :=
  .addEdge (.addEdge (.addEdge (.addEdge (.addEdge (.addEdge (.addEdge .empty _ _ _) _ _ _) _ _ _) _ _ _) _ _ _)
    _ _ _) _ _ _

def weightCost (e : EdgeView Nat) : Binary64 := .ofNat e.weight

theorem addsExactly_detours : detours.AddsExactly weightCost "S" := by
  have h := built_detours.wellFormed
  have hsum : (detours.views.map (·.weight)).sum < 2 ^ 53 := by decide +kernel
  exact h.addsExactly_of_naturals (n := (·.weight)) (fun _ _ => rfl) fun _ _ hp hsimple =>
    (h.sum_le_sum_views _ hp hsimple).trans_lt hsum

theorem pathsBetween_shortest_detours :
    ∃ paths, detours.pathsBetween weightCost ["T", "S"] ["T"] = .ok paths ∧ paths.map (·.map (·.id)) = [[1, 3, 5]] ∧
      ∀ p ∈ paths, detours.Walk "S" "T" p ∧
        ∀ q, detours.Walk "S" "T" q → totalCost weightCost p ≤ totalCost weightCost q := by
  have hids : (detours.pathsBetween weightCost ["T", "S"] ["T"]).toOption.map (·.map (·.map (·.id))) =
      some [[1, 3, 5]] := by decide +kernel
  obtain ⟨paths, hpaths, hshortest, -⟩ := pathsBetween_shortest built_detours weightCost
    (fun e _ => (Binary64.isDistance_ofNat e.weight).isValid) ["T", "S"] ["T"]
  rw [hpaths] at hids
  refine ⟨paths, hpaths, Option.some.inj hids, fun p hp => ?_⟩
  obtain ⟨x, hx, y, hy, hne, hwalk, -, hleast⟩ := hshortest p hp
  obtain rfl : y = "T" := by simpa using hy
  obtain rfl : x = "S" := by simpa [hne] using hx
  exact ⟨hwalk, hleast addsExactly_detours⟩

/-- **No path is missing and none is broken.** For costs that are not negative, there is one path for each pair of
a source and another name among the targets, both vertices, that a way leads to, by the places of the two in the
graph. Each path has an edge, leads along edges of the graph from its source to its target and comes to no name
twice. -/
theorem pathsBetween_complete (hg : g.Built) (costOf : EdgeView ω → Binary64)
    (hcosts : ∀ e ∈ g.edgeViews, Cost.isValid (costOf e) = true) (sources targets : List String) :
    let pairs := g.joined sources targets
    (pairs.Nodup ∧ ∀ x y, (x, y) ∈ pairs ↔
      ((x ∈ g.names ∧ x ∈ sources) ∧ y ∈ g.names ∧ y ∈ targets) ∧ y ≠ x ∧ ReflTransGen g.Leads x y) ∧
    ∃ paths, g.pathsBetween costOf sources targets = .ok paths ∧
      List.Forall₂ (fun z p => p ≠ [] ∧ g.Walk z.1 z.2 p ∧ (z.1 :: p.map (·.target)).Nodup) pairs paths := by
  intro pairs
  have h := hg.wellFormed
  have hvalid : ∀ e ∈ g.views, Cost.isValid (costOf e) = true := fun e he =>
    hcosts e ((edgeViews_perm g).mem_iff.2 he)
  have hfrom : ∀ x ∈ g.among sources, g.ValidFrom costOf x.id := fun x _ v p _ e he =>
    hvalid _ (List.mem_map_of_mem (mem_outOf.1 he).1)
  obtain ⟨paths, hpaths, hlists⟩ := h.pathsBetween_lists hfrom targets
  refine ⟨⟨h.joined_nodup sources targets, fun x y => ?_⟩, paths, hpaths, ?_⟩
  · rw [mem_joined, h.mem_reachable]
    refine and_congr_right fun hends => and_congr_right fun _ => ?_
    simp [hends.1.1]
  · have hne : ∀ z ∈ pairs, z.2 ≠ z.1 := fun z hz => (mem_joined.1 hz).2.1
    refine ((List.forall₂_and_left _ _).2 ⟨hne, hlists⟩).imp fun z p hp => ?_
    obtain ⟨hne, hp⟩ := hp
    exact ⟨hp.walk.ne_nil hne.symm, hp.walk, hp.simple⟩

theorem pathsBetween_complete_detours :
    ∃ paths, detours.pathsBetween weightCost ["T", "Nowhere", "S", "S"] ["T", "A", "T"] = .ok paths ∧
      List.Forall₂ (fun z p => p ≠ [] ∧ detours.Walk z.1 z.2 p ∧ (z.1 :: p.map (·.target)).Nodup)
        [("S", "A"), ("S", "T")] paths := by
  have hpairs : detours.joined ["T", "Nowhere", "S", "S"] ["T", "A", "T"] = [("S", "A"), ("S", "T")] := by
    decide +kernel
  rw [← hpairs]
  exact (pathsBetween_complete built_detours weightCost
    (fun e _ => (Binary64.isDistance_ofNat e.weight).isValid) ["T", "Nowhere", "S", "S"] ["T", "A", "T"]).2

end Graph

end Coupling
