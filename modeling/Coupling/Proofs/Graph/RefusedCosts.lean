/-
Costs that are refused.

A search looks at the edges out of every vertex that it finds, and at no others. So it
refuses a cost just if an edge that can be reached from its source has one to refuse
(`arrivalsFrom_ok_iff`). Paths between names are searched for from each source, whatever
the targets are: they end in an error just if an edge that can be reached from a source
has a cost that is negative or NaN, and the error names such an edge
(`pathsBetween_refuses`).
-/
import Coupling.Proofs.Graph.ShortestPaths

open Relation (ReflTransGen)

namespace Coupling.Graph

section Searches

variable {ω γ : Type} [Cost γ] {g : Graph ω} {costOf : EdgeView ω → γ} {source : Nat} {err : Error}
  {sources targets : List String}

/-- The union of paths is there if the paths are, and their error is its. -/
theorem unionOfShortestPaths_error_iff :
    g.unionOfShortestPaths costOf sources targets = .error err ↔
      g.pathsBetween costOf sources targets = .error err := by
  cases h : g.pathsBetween costOf sources targets <;>
    simp [unionOfShortestPaths, h, bind, Except.bind, pure, Except.pure]

/-- An edge out of a name to which a way leads from one of the sources. -/
def OnWay (g : Graph ω) (sources : List String) (e : EdgeView ω) : Prop :=
  e ∈ g.edgeViews ∧ ∃ x ∈ sources, x ∈ g.names ∧ ReflTransGen g.Leads x e.source

/-- The edges on ways from names are those out of vertices that walks lead to. -/
theorem WellFormed.onWay_iff (h : g.WellFormed) {e : EdgeView ω} :
    g.OnWay sources e ↔ ∃ x ∈ g.among sources, ∃ v p, g.IdWalk x.id v p ∧ ∃ f ∈ g.outOf v, g.view f = e := by
  unfold OnWay
  rw [(edgeViews_perm g).mem_iff]
  constructor
  · rintro ⟨he, x, hx, hname, hway⟩
    obtain ⟨z, hz, rfl⟩ := mem_names.1 hname
    obtain ⟨q, hq⟩ := exists_walk_iff.2 hway
    rw [← h.nameOf_of_mem hz] at hq
    obtain ⟨v, p, hp, -, hv, hend⟩ := h.exists_idWalk (id_mem_ids hz) hq
    obtain ⟨f, hf, rfl⟩ := List.mem_map.1 he
    have hsame : f.source = v := ((h.name_eq_iff (h.mem_vertices hv) (h.mem_vertices (h.sources f hf))).1 hend).symm
    exact ⟨z, mem_among.2 ⟨hz, hx⟩, v, p, hp, f, mem_outOf.2 ⟨hf, hsame⟩, rfl⟩
  · rintro ⟨x, hx, v, p, hp, f, hf, rfl⟩
    obtain ⟨hedge, rfl⟩ := mem_outOf.1 hf
    obtain ⟨hx, hwanted⟩ := mem_among.1 hx
    have hwalk := (h.walk_of_idWalk hp (id_mem_ids hx)).2
    rw [h.nameOf_of_mem hx] at hwalk
    exact ⟨List.mem_map_of_mem hedge, x.name, hwanted, name_mem_names hx, exists_walk_iff.1 ⟨_, hwalk⟩⟩

variable [RankedCost γ]

/-- A search comes to its end just if it can reach valid costs only. -/
theorem arrivalsFrom_ok_iff :
    (∃ arrivals, g.arrivalsFrom costOf source = .ok arrivals) ↔ g.ValidFrom costOf source := by
  obtain ⟨s, ⟨hqueue, settled, paths, level, hp, hat⟩, hs⟩ | ⟨v, p, hwalk, e, he, hbad, herror⟩ :=
    finished_or_refused g costOf source
  · exact ⟨fun _ => hp.validFrom hqueue hat, fun _ => ⟨s.arrivals, hs⟩⟩
  · constructor
    · rintro ⟨arrivals, hok⟩
      rw [herror] at hok
      cases hok
    · intro hvalid
      rw [hvalid v p hwalk e he] at hbad
      cases hbad

/-- An error of a search is that of an edge that it can reach. -/
theorem exists_refused (h : g.arrivalsFrom costOf source = .error err) :
    ∃ v p, g.IdWalk source v p ∧ ∃ e ∈ g.outOf v, Cost.isValid (costOf (g.view e)) = false ∧
      err = refusal costOf (g.view e) := by
  obtain ⟨s, -, hs⟩ | ⟨v, p, hwalk, e, he, hbad, herror⟩ := finished_or_refused g costOf source
  · rw [hs] at h
    cases h
  · exact ⟨v, p, hwalk, e, he, hbad, Except.error.inj (h.symm.trans herror)⟩

theorem WellFormed.exists_of_pathsBetween_error (h : g.WellFormed)
    (herror : g.pathsBetween costOf sources targets = .error err) :
    ∃ e, g.OnWay sources e ∧ Cost.isValid (costOf e) = false ∧ err = refusal costOf e := by
  rcases g.pathsBetween_ok_or_error costOf sources targets with ⟨found, hok, -⟩ | ⟨x, hx, err', hsearch, herror'⟩
  · rw [hok] at herror
    cases herror
  · obtain rfl := Except.error.inj (herror'.symm.trans herror)
    obtain ⟨v, p, hp, e, he, hbad, herr⟩ := exists_refused hsearch
    exact ⟨g.view e, h.onWay_iff.2 ⟨x, hx, v, p, hp, e, he, rfl⟩, hbad, herr⟩

theorem WellFormed.pathsBetween_error_of_onWay (h : g.WellFormed) {e : EdgeView ω} (he : g.OnWay sources e)
    (hbad : Cost.isValid (costOf e) = false) (targets : List String) :
    ∃ err, g.pathsBetween costOf sources targets = .error err := by
  rcases g.pathsBetween_ok_or_error costOf sources targets with ⟨found, -, hall⟩ | ⟨-, -, err, -, herror⟩
  · obtain ⟨x, hx, v, p, hp, f, hf, rfl⟩ := h.onWay_iff.1 he
    obtain ⟨ps, -, hps⟩ := (Matched.of_forall₂ hall).exists_right hx
    cases hsearch : g.arrivalsFrom costOf x.id with
    | error err =>
      rw [pathsFrom_error_iff.2 hsearch] at hps
      cases hps
    | ok arrivals =>
      rw [arrivalsFrom_ok_iff.1 ⟨arrivals, hsearch⟩ v p hp f hf] at hbad
      cases hbad
  · exact ⟨err, herror⟩

end Searches

theorem isValid_eq_false_iff {c : Binary64} :
    Cost.isValid c = false ↔ c.isNaN = true ∨ c.lt Binary64.zero = true := by
  show (!(c.isNaN || c.lt Binary64.zero)) = false ↔ _
  rw [Bool.not_eq_false', Bool.or_eq_true]

variable {ω : Type} {g : Graph ω}

/-- **Only costs that can be reached are refused, and all of them are.** Paths between names and their union end in
an error just if an edge on a way from a source has a cost that is negative or NaN, whatever the targets are and
whatever other edges cost. The error tells the cost and the ends of such an edge. -/
theorem pathsBetween_refuses (hg : g.Built) (costOf : EdgeView ω → Binary64) (sources targets : List String) :
    let Refused e := g.OnWay sources e ∧ ((costOf e).isNaN = true ∨ (costOf e).lt Binary64.zero = true)
    ((∃ err, g.pathsBetween costOf sources targets = .error err) ↔ ∃ e, Refused e) ∧
      ((∃ err, g.unionOfShortestPaths costOf sources targets = .error err) ↔ ∃ e, Refused e) ∧
      ∀ err, g.pathsBetween costOf sources targets = .error err ∨
          g.unionOfShortestPaths costOf sources targets = .error err →
        ∃ e, Refused e ∧ err = .invalidWeight ((costOf e).render Layout.plain) e.source e.target := by
  intro Refused
  have h := hg.wellFormed
  have hrefused : ∀ e, Refused e ↔ g.OnWay sources e ∧ Cost.isValid (costOf e) = false := fun e => by
    rw [isValid_eq_false_iff]
  have hpaths : (∃ err, g.pathsBetween costOf sources targets = .error err) ↔ ∃ e, Refused e := by
    constructor
    · rintro ⟨err, herror⟩
      obtain ⟨e, he, hbad, -⟩ := h.exists_of_pathsBetween_error herror
      exact ⟨e, (hrefused e).2 ⟨he, hbad⟩⟩
    · rintro ⟨e, he⟩
      obtain ⟨he, hbad⟩ := (hrefused e).1 he
      exact h.pathsBetween_error_of_onWay he hbad targets
  refine ⟨hpaths, ?_, fun err herror => ?_⟩
  · simpa only [unionOfShortestPaths_error_iff] using hpaths
  · rw [unionOfShortestPaths_error_iff, or_self] at herror
    obtain ⟨e, he, hbad, rfl⟩ := h.exists_of_pathsBetween_error herror
    exact ⟨e, (hrefused e).2 ⟨he, hbad⟩, rfl⟩

/-- Edges with a negative cost, one behind `S` and one in front of `C`. -/
def tolls : Graph Int :=
  let g := (empty.addEdge "S" "A" 2).2
  let g := (g.addEdge "A" "B" (-1)).2
  let g := (g.addEdge "C" "T" 3).2
  (g.addEdge "X" "C" (-4)).2

theorem built_tolls : tolls.Built := .addEdge (.addEdge (.addEdge (.addEdge .empty _ _ _) _ _ _) _ _ _) _ _ _

def tollCost (e : EdgeView Int) : Binary64 := .ofInt e.weight

theorem pathsBetween_refuses_tolls :
    (∃ err, tolls.pathsBetween tollCost ["S"] [] = .error err ∧ err.message = "invalid weight -1 on edge A -> B") ∧
      (∃ e, tolls.OnWay ["S"] e ∧ ((tollCost e).isNaN = true ∨ (tollCost e).lt Binary64.zero = true)) ∧
      ¬ ∃ e, tolls.OnWay ["C", "Nowhere"] e ∧ ((tollCost e).isNaN = true ∨ (tollCost e).lt Binary64.zero = true) := by
  have herror : (tolls.pathsBetween tollCost ["S"] []).map (fun _ => ()) = .error (.invalidWeight "-1" "A" "B") := by
    decide +kernel
  have hok : (tolls.pathsBetween tollCost ["C", "Nowhere"] ["T"]).isOk = true := by decide +kernel
  have hfailed : ∃ err, tolls.pathsBetween tollCost ["S"] [] = .error err ∧
      err.message = "invalid weight -1 on edge A -> B" := by
    cases hpaths : tolls.pathsBetween tollCost ["S"] [] with
    | ok paths =>
      rw [hpaths] at herror
      cases herror
    | error err =>
      rw [hpaths] at herror
      exact ⟨err, rfl, by rw [Except.error.inj herror]; decide +kernel⟩
  obtain ⟨hbad, -, -⟩ := pathsBetween_refuses built_tolls tollCost ["S"] []
  obtain ⟨hgood, -, -⟩ := pathsBetween_refuses built_tolls tollCost ["C", "Nowhere"] ["T"]
  refine ⟨hfailed, hbad.1 (hfailed.imp fun _ => And.left), fun hrefused => ?_⟩
  obtain ⟨err, herr⟩ := hgood.2 hrefused
  rw [herr] at hok
  cases hok

end Coupling.Graph
