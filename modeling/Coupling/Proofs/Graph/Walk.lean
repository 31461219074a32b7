/-
Walks.

A walk is a list of edges, each out of the vertex at which the one before it ended.
What is said of walks holds along vertices and along names alike, as the edges out
of a name are those out of its vertex. A walk that comes back to a vertex can leave
out what lies between, so there is one without repetition (`Walk.exists_simple`).
-/
import Coupling.Proofs.Graph.WellFormed
import Mathlib.Data.List.Induction

namespace Coupling

/-- A walk along edges that go `out` of vertices. -/
inductive Walk {α ε : Type} (out : α → List ε) (target : ε → α) : α → α → List ε → Prop
  | nil (x : α) : Walk out target x x []
  | cons {x y : α} {e : ε} {p : List ε} (he : e ∈ out x) (hp : Walk out target (target e) y p) :
      Walk out target x y (e :: p)

namespace Walk

variable {α ε : Type} {out : α → List ε} {target : ε → α} {x y z : α} {e : ε} {p q : List ε}

theorem append (hp : Walk out target x y p) (hq : Walk out target y z q) : Walk out target x z (p ++ q) := by
  induction hp with
  | nil => exact hq
  | cons he _ ih => exact .cons he (ih hq)

theorem concat (hp : Walk out target x y p) (he : e ∈ out y) : Walk out target x (target e) (p ++ [e]) :=
  hp.append (.cons he (.nil _))

theorem ne_nil (h : Walk out target x y p) (hne : x ≠ y) : p ≠ [] := by
  rintro rfl
  cases h
  exact hne rfl

/-- The last edge of a walk. -/
theorem of_concat (h : Walk out target x y (p ++ [e])) : ∃ z, Walk out target x z p ∧ e ∈ out z ∧ target e = y := by
  induction p generalizing x with
  | nil =>
    cases h with
    | cons he hp =>
      cases hp
      exact ⟨x, .nil x, he, rfl⟩
  | cons f p ih =>
    cases h with
    | cons hf hp =>
      obtain ⟨z, hp, he, hend⟩ := ih hp
      exact ⟨z, .cons hf hp, he, hend⟩

/-- A walk that comes back to where it began repeats a vertex, unless it has no edges. -/
theorem eq_nil_of_nodup (h : Walk out target x x p) (hnodup : (x :: p.map target).Nodup) : p = [] := by
  induction p using List.reverseRecOn with
  | nil => rfl
  | append_singleton p e =>
    obtain ⟨-, -, -, hend⟩ := h.of_concat
    exact absurd (List.mem_map.2 ⟨e, by simp, hend⟩) (List.nodup_cons.1 hnodup).1

/-- A walk from any vertex on the way. -/
theorem exists_suffix (hp : Walk out target x y p) (hz : z ∈ x :: p.map target) :
    ∃ q, q <:+ p ∧ Walk out target z y q ∧ z :: q.map target <:+ x :: p.map target := by
  induction hp with
  | nil x =>
    obtain rfl := List.mem_singleton.1 hz
    exact ⟨[], List.suffix_refl _, .nil _, List.suffix_refl _⟩
  | @cons x y e p he hp ih =>
    rcases List.mem_cons.1 hz with rfl | hz
    · exact ⟨e :: p, List.suffix_refl _, .cons he hp, List.suffix_refl _⟩
    · obtain ⟨q, hq, hwalk, hvisited⟩ := ih hz
      exact ⟨q, hq.trans (List.suffix_cons _ _), hwalk, hvisited.trans (List.suffix_cons _ _)⟩

/-- A walk can do without coming back to a vertex. -/
theorem exists_simple (hp : Walk out target x y p) :
    ∃ q, q.Sublist p ∧ Walk out target x y q ∧ (x :: q.map target).Nodup := by
  induction hp with
  | nil x => exact ⟨[], List.Sublist.refl _, .nil x, List.nodup_singleton x⟩
  | @cons x y e p he hp ih =>
    obtain ⟨q, hq, hwalk, hnodup⟩ := ih
    by_cases hx : x ∈ target e :: q.map target
    · obtain ⟨r, hr, hwalk, hvisited⟩ := hwalk.exists_suffix hx
      exact ⟨r, (hr.sublist.trans hq).cons e, hwalk, hnodup.sublist hvisited.sublist⟩
    · exact ⟨e :: q, hq.cons_cons e, .cons he hwalk, List.nodup_cons.2 ⟨hx, hnodup⟩⟩

end Walk

namespace Graph

variable {ω : Type} {g : Graph ω}

/-- A walk along names. -/
abbrev Walk (g : Graph ω) : String → String → List (EdgeView ω) → Prop := Coupling.Walk g.outEdges EdgeView.target

/-- A walk along vertices. -/
abbrev IdWalk (g : Graph ω) : Nat → Nat → List (Edge ω) → Prop := Coupling.Walk g.outOf Edge.target

theorem mem_outOf {v : Nat} {e : Edge ω} : e ∈ g.outOf v ↔ e ∈ g.edges ∧ e.source = v := by
  rw [outOf, List.mem_filter, beq_iff_eq]

theorem WellFormed.outEdges_nameOf (h : g.WellFormed) {v : Nat} (hv : v ∈ g.ids) :
    g.outEdges (g.nameOf v) = (g.outOf v).map g.view :=
  h.outEdges_of_mem (h.mem_vertices hv)

/-- A walk along vertices is one along their names. -/
theorem WellFormed.walk_of_idWalk (h : g.WellFormed) {v w : Nat} {p : List (Edge ω)} (hp : g.IdWalk v w p)
    (hv : v ∈ g.ids) : w ∈ g.ids ∧ g.Walk (g.nameOf v) (g.nameOf w) (p.map g.view) := by
  induction hp with
  | nil v => exact ⟨hv, .nil _⟩
  | @cons v w e p he _ ih =>
    obtain ⟨hw, hwalk⟩ := ih (h.targets e (mem_outOf.1 he).1)
    exact ⟨hw, .cons (by rw [h.outEdges_nameOf hv]; exact List.mem_map_of_mem he) hwalk⟩

theorem mem_edges_of_idWalk {v w : Nat} {p : List (Edge ω)} (hp : g.IdWalk v w p) : ∀ e ∈ p, e ∈ g.edges := by
  induction hp with
  | nil => simp
  | cons he _ ih => exact List.forall_mem_cons.2 ⟨(mem_outOf.1 he).1, ih⟩

theorem WellFormed.mem_views_of_walk (h : g.WellFormed) {x y : String} {p : List (EdgeView ω)} (hp : g.Walk x y p) :
    ∀ e ∈ p, e ∈ g.views := by
  induction hp with
  | nil => simp
  | cons he _ ih => exact List.forall_mem_cons.2 ⟨(h.mem_outEdges.1 he).1, ih⟩

/-- The ends of a walk between different names are vertices. -/
theorem WellFormed.mem_names_of_walk (h : g.WellFormed) {x y : String} {p : List (EdgeView ω)} (hp : g.Walk x y p)
    (hne : x ≠ y) : x ∈ g.names ∧ y ∈ g.names := by
  have hviews := h.mem_views_of_walk hp
  constructor
  · cases hp with
    | nil => exact absurd rfl hne
    | cons he hp =>
      obtain ⟨hview, rfl⟩ := h.mem_outEdges.1 he
      exact h.source_mem hview
  · rcases List.eq_nil_or_concat' p with rfl | ⟨q, e, rfl⟩
    · exact absurd rfl (hp.ne_nil hne)
    · obtain ⟨-, -, -, rfl⟩ := hp.of_concat
      exact h.target_mem (hviews e (by simp))

/-- A walk that repeats no vertex repeats no name. -/
theorem WellFormed.nodup_names (h : g.WellFormed) {v w : Nat} {p : List (Edge ω)} (hp : g.IdWalk v w p) (hv : v ∈ g.ids)
    (hnodup : (v :: p.map (·.target)).Nodup) : (g.nameOf v :: (p.map g.view).map (·.target)).Nodup := by
  have hids : ∀ u ∈ v :: p.map (·.target), u ∈ g.ids := by
    refine List.forall_mem_cons.2 ⟨hv, fun u hu => ?_⟩
    obtain ⟨e, he, rfl⟩ := List.mem_map.1 hu
    exact h.targets e (mem_edges_of_idWalk hp e he)
  have hnames : g.nameOf v :: (p.map g.view).map (·.target) = (v :: p.map (·.target)).map g.nameOf := by
    simp [view, Function.comp_def]
  rw [hnames]
  exact hnodup.map_on fun a ha b hb heq =>
    (h.nameOf_eq_iff (hids a ha) (h.idOf?_eq_some_iff.2 (h.mem_vertices (hids b hb)))).1 heq

/-- A walk along names is one along their vertices. -/
theorem WellFormed.exists_idWalk (h : g.WellFormed) {v : Nat} {y : String} {q : List (EdgeView ω)} (hv : v ∈ g.ids)
    (hq : g.Walk (g.nameOf v) y q) : ∃ w p, g.IdWalk v w p ∧ p.map g.view = q ∧ w ∈ g.ids ∧ g.nameOf w = y := by
  generalize hx : g.nameOf v = x at hq
  induction hq generalizing v with
  | nil x => exact ⟨v, [], .nil v, rfl, hv, hx⟩
  | @cons x y e q he _ ih =>
    rw [← hx, h.outEdges_nameOf hv] at he
    obtain ⟨f, hf, rfl⟩ := List.mem_map.1 he
    obtain ⟨w, p, hp, rfl, hw, hname⟩ := ih (h.targets f (mem_outOf.1 hf).1) rfl
    exact ⟨w, f :: p, .cons hf hp, rfl, hw, hname⟩

end Graph

end Coupling
