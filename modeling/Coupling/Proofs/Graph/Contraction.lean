/-
Contraction keeps ways.

Contracting a vertex leaves an edge between two others just if there was one, or
one to the vertex and one from it (`leads_contract`). A way that avoids an end
at the vertex can so be walked before and after (`transGen_of_bypass`), and hence
around any number of contracted vertices (`reachable_contractVertices`).
-/
import Coupling.Proofs.Graph.Reachability

open Relation (ReflTransGen TransGen)

namespace Coupling.Graph

variable {ω : Type} {g : Graph ω} {merge : EdgeView ω → EdgeView ω → ω}

/-! ## One vertex -/

@[simp] theorem vertices_contract (g : Graph ω) (merge : EdgeView ω → EdgeView ω → ω) (v : Nat) :
    (g.contract merge v).vertices = g.vertices.filter (·.id != v) := by
  unfold contract
  rw [vertices_drop, vertices_linkAll]

theorem mem_vertices_contract {v : Nat} {x : Vertex} :
    x ∈ (g.contract merge v).vertices ↔ x ∈ g.vertices ∧ x.id ≠ v := by
  rw [vertices_contract, List.mem_filter, bne_iff_ne]

/-- The other vertices stay, in their order. -/
theorem WellFormed.vertices_contract_eq (h : g.WellFormed) {v : Nat} {name : String} (hv : ⟨v, name⟩ ∈ g.vertices) :
    (g.contract merge v).vertices = g.vertices.filter (·.name != name) := by
  rw [vertices_contract]
  refine List.filter_congr fun x hx => ?_
  have hiff := h.name_eq_iff hx hv
  simp only [bne, Bool.beq_eq_decide_eq, hiff]

theorem WellFormed.names_contract (h : g.WellFormed) {v : Nat} {name : String} (hv : ⟨v, name⟩ ∈ g.vertices) :
    (g.contract merge v).names = g.names.filter (· != name) := by
  unfold Graph.names
  rw [h.vertices_contract_eq hv, List.filter_map]
  rfl

theorem mem_through {v : Nat} {x : Nat × Nat × ω} (hx : x ∈ g.through merge v) :
    v ∈ g.successors x.1 ∧ x.2.1 ∈ g.successors v := by
  obtain ⟨i, hi, hx⟩ := List.mem_flatMap.1 hx
  obtain ⟨o, ho, rfl⟩ := List.mem_map.1 hx
  obtain ⟨hi, hv⟩ := List.mem_filter.1 hi
  obtain ⟨ho, hv'⟩ := List.mem_filter.1 ho
  exact ⟨mem_successors.2 ⟨i, hi, rfl, by simpa using hv⟩, mem_successors.2 ⟨o, ho, by simpa using hv', rfl⟩⟩

theorem exists_mem_through (merge : EdgeView ω → EdgeView ω → ω) {v a b : Nat} (ha : v ∈ g.successors a)
    (hb : b ∈ g.successors v) :
    ∃ w, (a, b, w) ∈ g.through merge v := by
  obtain ⟨i, hi, rfl, hv⟩ := mem_successors.1 ha
  obtain ⟨o, ho, hv', rfl⟩ := mem_successors.1 hb
  refine ⟨merge (g.view i) (g.view o), List.mem_flatMap.2 ⟨i, ?_, List.mem_map.2 ⟨o, ?_, rfl⟩⟩⟩
  · exact List.mem_filter.2 ⟨hi, by simpa using hv⟩
  · exact List.mem_filter.2 ⟨ho, by simpa using hv'⟩

/-- Other vertices are joined if they were, or if a way of two edges went through the vertex. -/
theorem mem_successors_contract {v a b : Nat} :
    b ∈ (g.contract merge v).successors a ↔
      a ≠ v ∧ b ≠ v ∧ (b ∈ g.successors a ∨ v ∈ g.successors a ∧ b ∈ g.successors v) := by
  obtain ⟨fresh, hedges, hcontent⟩ := g.edges_linkAll (g.through merge v)
  have hmem : ∀ e, e ∈ (g.contract merge v).edges ↔
      (e ∈ fresh ∨ e ∈ g.edges) ∧ e.source ≠ v ∧ e.target ≠ v := by
    intro e
    unfold contract
    rw [edges_drop, List.mem_filter, hedges, List.mem_append, Bool.and_eq_true, bne_iff_ne, bne_iff_ne]
  rw [mem_successors]
  constructor
  · rintro ⟨e, he, rfl, rfl⟩
    obtain ⟨he, hs, ht⟩ := (hmem e).1 he
    refine ⟨hs, ht, ?_⟩
    rcases he with he | he
    · have hnew : e.content ∈ g.through merge v := by
        rw [← List.mem_reverse, ← hcontent]
        exact List.mem_map_of_mem he
      exact .inr (mem_through hnew)
    · exact .inl (mem_successors.2 ⟨e, he, rfl, rfl⟩)
  · rintro ⟨hs, ht, hold | ⟨hin, hout⟩⟩
    · obtain ⟨e, he, rfl, rfl⟩ := mem_successors.1 hold
      exact ⟨e, (hmem e).2 ⟨.inr he, hs, ht⟩, rfl, rfl⟩
    · obtain ⟨w, hw⟩ := exists_mem_through merge hin hout
      rw [← List.mem_reverse, ← hcontent] at hw
      obtain ⟨e, he, heq⟩ := List.mem_map.1 hw
      simp only [Edge.content, Prod.mk.injEq] at heq
      obtain ⟨rfl, rfl, -⟩ := heq
      exact ⟨e, (hmem e).2 ⟨.inl he, hs, ht⟩, rfl, rfl⟩

/-- Other names lead to each other if they did, or if a way of two edges went through the vertex. -/
theorem WellFormed.leads_contract (h : g.WellFormed) {v : Nat} {name : String} (hv : ⟨v, name⟩ ∈ g.vertices)
    {x y : String} :
    (g.contract merge v).Leads x y ↔ x ≠ name ∧ y ≠ name ∧ (g.Leads x y ∨ g.Leads x name ∧ g.Leads name y) := by
  have hne : ∀ {a z}, ⟨a, z⟩ ∈ g.vertices → (a ≠ v ↔ z ≠ name) := by
    intro a z ha
    have hid := h.nameOf_eq_iff (id_mem_ids ha) (h.idOf?_eq_some_iff.2 hv)
    rw [h.nameOf_of_mem ha] at hid
    exact not_congr hid.symm
  have hsame : ∀ {a}, ⟨a, name⟩ ∈ g.vertices → a = v := by
    intro a ha
    by_contra hav
    exact (hne ha).1 hav rfl
  rw [(h.contract merge (id_mem_ids hv)).leads_iff]
  constructor
  · rintro ⟨a, b, ha, hb, hab⟩
    obtain ⟨ha, hav⟩ := mem_vertices_contract.1 ha
    obtain ⟨hb, hbv⟩ := mem_vertices_contract.1 hb
    refine ⟨(hne ha).1 hav, (hne hb).1 hbv, ?_⟩
    obtain ⟨-, -, hab | ⟨hin, hout⟩⟩ := mem_successors_contract.1 hab
    · exact .inl (h.leads_iff.2 ⟨a, b, ha, hb, hab⟩)
    · exact .inr ⟨h.leads_iff.2 ⟨a, v, ha, hv, hin⟩, h.leads_iff.2 ⟨v, b, hv, hb, hout⟩⟩
  · rintro ⟨hx, hy, hold | ⟨hin, hout⟩⟩
    · obtain ⟨a, b, ha, hb, hab⟩ := h.leads_iff.1 hold
      have hav := (hne ha).2 hx
      have hbv := (hne hb).2 hy
      exact ⟨a, b, mem_vertices_contract.2 ⟨ha, hav⟩, mem_vertices_contract.2 ⟨hb, hbv⟩,
        mem_successors_contract.2 ⟨hav, hbv, .inl hab⟩⟩
    · obtain ⟨a, v₁, ha, hv₁, hin⟩ := h.leads_iff.1 hin
      obtain ⟨v₂, b, hv₂, hb, hout⟩ := h.leads_iff.1 hout
      obtain rfl := hsame hv₁
      obtain rfl := hsame hv₂
      have hav := (hne ha).2 hx
      have hbv := (hne hb).2 hy
      exact ⟨a, b, mem_vertices_contract.2 ⟨ha, hav⟩, mem_vertices_contract.2 ⟨hb, hbv⟩,
        mem_successors_contract.2 ⟨hav, hbv, .inr ⟨hin, hout⟩⟩⟩

/-! ## Ways -/

section Bypass

variable {α : Type} {r s : α → α → Prop} {v : α}

/-- Where steps avoid a point, and lead past it in one what led through it in two, ways between other
points are the same. -/
theorem transGen_of_bypass (hs : ∀ x y, s x y ↔ x ≠ v ∧ y ≠ v ∧ (r x y ∨ r x v ∧ r v y)) {x y : α} (hx : x ≠ v)
    (hy : y ≠ v) : TransGen s x y ↔ TransGen r x y := by
  constructor
  · intro hway
    have hstep : ∀ a b, s a b → TransGen r a b := by
      intro a b hab
      obtain ⟨-, -, hab | ⟨hin, hout⟩⟩ := (hs a b).1 hab
      · exact .single hab
      · exact .tail (.single hin) hout
    clear hx hy
    induction hway with
    | single hab => exact hstep _ _ hab
    | tail _ hab ih => exact ih.trans (hstep _ _ hab)
  · intro hway
    -- a way that stands at the point came there from a last point before it
    have hgo : ∀ {z}, TransGen r x z →
        (z ≠ v → TransGen s x z) ∧ (z = v → ∃ u, ReflTransGen s x u ∧ u ≠ v ∧ r u v) := by
      intro z hway
      induction hway with
      | single hxz =>
        refine ⟨fun hz => .single ((hs _ _).2 ⟨hx, hz, .inl hxz⟩), ?_⟩
        rintro rfl
        exact ⟨x, .refl, hx, hxz⟩
      | @tail b z _ hbz ih =>
        by_cases hb : b = v
        · subst hb
          obtain ⟨u, hxu, hu, hub⟩ := ih.2 rfl
          refine ⟨fun hz => ?_, fun hz => ⟨u, hxu, hu, hub⟩⟩
          exact .tail' hxu ((hs _ _).2 ⟨hu, hz, .inr ⟨hub, hbz⟩⟩)
        · have hxb := ih.1 hb
          refine ⟨fun hz => hxb.tail ((hs _ _).2 ⟨hb, hz, .inl hbz⟩), ?_⟩
          rintro rfl
          exact ⟨b, hxb.to_reflTransGen, hb, hbz⟩
    exact (hgo hway).1 hy

end Bypass

/-! ## Vertices one after the other -/

/-- Of distinct names those after the first are left when its vertex is contracted. -/
theorem WellFormed.mem_names_contract (h : g.WellFormed) (merge : EdgeView ω → EdgeView ω → ω) {v : Nat}
    {name : String} (hv : ⟨v, name⟩ ∈ g.vertices) {ns : List String} (hnodup : (name :: ns).Nodup)
    (hns : ∀ n ∈ name :: ns, n ∈ g.names) : ∀ n ∈ ns, n ∈ (g.contract merge v).names := by
  intro n hn
  rw [h.names_contract hv, List.mem_filter, bne_iff_ne]
  refine ⟨hns n (List.mem_cons_of_mem _ hn), ?_⟩
  rintro rfl
  exact (List.nodup_cons.1 hnodup).1 hn

/-- Contracting distinct names of a graph takes away these, counts them, and keeps the ways between the
others. -/
theorem WellFormed.contractNames_spec (h : g.WellFormed) (merge : EdgeView ω → EdgeView ω → ω) {ns : List String}
    (hnodup : ns.Nodup) (hns : ∀ n ∈ ns, n ∈ g.names) :
    (Graph.contractNames merge ns g).1 = ns.length ∧
      (Graph.contractNames merge ns g).2.names = g.names.filter (!ns.contains ·) ∧
      ∀ x y, x ∉ ns → y ∉ ns → (TransGen (Graph.contractNames merge ns g).2.Leads x y ↔ TransGen g.Leads x y) := by
  induction ns generalizing g with
  | nil => simp [Graph.contractNames]
  | cons n ns ih =>
    obtain ⟨⟨v, name⟩, hv, rfl⟩ := mem_names.1 (hns n (by simp))
    have hid := h.idOf?_eq_some_iff.2 hv
    obtain ⟨hcount, hnames, hways⟩ :=
      ih (h.contract merge (id_mem_ids hv)) hnodup.of_cons (h.mem_names_contract merge hv hnodup hns)
    simp only [Graph.contractNames, hid]
    refine ⟨by rw [hcount, List.length_cons], ?_, fun x y hx hy => ?_⟩
    · rw [hnames, h.names_contract hv, List.filter_filter]
      refine List.filter_congr fun m _ => ?_
      simp only [List.contains_cons, Bool.not_or, bne]
      ac_rfl
    · simp only [List.mem_cons, not_or] at hx hy
      rw [hways x y hx.2 hy.2]
      exact transGen_of_bypass (fun a b => h.leads_contract hv) hx.1 hy.1

/-- The names that are not chosen stay, in their order. -/
theorem WellFormed.names_contractVertices (h : g.WellFormed) (chosen : String → Bool)
    (merge : EdgeView ω → EdgeView ω → ω) :
    (g.contractVertices chosen merge).2.names = g.names.filter (!chosen ·) := by
  refine (h.contractNames_spec merge (h.names.filter chosen) fun n hn => List.mem_of_mem_filter hn).2.1.trans ?_
  refine List.filter_congr fun n hn => ?_
  simp [List.mem_filter, hn]

/-- **Contraction keeps ways.** The chosen names go, and are counted; the others stay, and of these one is
reached from another just if it was, by no edges or by at least one. -/
theorem reachable_contractVertices (hg : g.Built) (chosen : String → Bool) (merge : EdgeView ω → EdgeView ω → ω) :
    (g.contractVertices chosen merge).2.names = g.names.filter (!chosen ·) ∧
      (g.contractVertices chosen merge).1 = g.names.countP chosen ∧
      ∀ x ∈ (g.contractVertices chosen merge).2.names, ∀ y ∈ (g.contractVertices chosen merge).2.names,
        (y ∈ (g.contractVertices chosen merge).2.reachable [x] ↔ y ∈ g.reachable [x]) ∧
          (TransGen (g.contractVertices chosen merge).2.Leads x y ↔ TransGen g.Leads x y) := by
  have h := hg.wellFormed
  have h' := (hg.contractVertices chosen merge).wellFormed
  obtain ⟨hcount, hnames, hways⟩ := h.contractNames_spec merge (h.names.filter chosen)
    fun n hn => List.mem_of_mem_filter hn
  have hkept : (g.contractVertices chosen merge).2.names = g.names.filter (!chosen ·) := by
    refine hnames.trans (List.filter_congr fun n hn => ?_)
    simp [List.mem_filter, hn]
  refine ⟨hkept, ?_, fun x hx y hy => ?_⟩
  · rw [List.countP_eq_length_filter]
    exact hcount
  · have hout : ∀ z ∈ (g.contractVertices chosen merge).2.names, z ∈ g.names ∧ z ∉ g.names.filter chosen := by
      intro z hz
      rw [hkept, List.mem_filter, Bool.not_eq_true'] at hz
      exact ⟨hz.1, fun hz' => by simp [hz.2] at hz'⟩
    have hway := hways x y (hout x hx).2 (hout y hy).2
    refine ⟨?_, hway⟩
    rw [h.mem_reachable, h'.mem_reachable]
    simp only [List.mem_singleton, exists_eq_left, hx, (hout x hx).1, true_and]
    rw [Relation.reflTransGen_iff_eq_or_transGen, Relation.reflTransGen_iff_eq_or_transGen]
    exact or_congr_right hway

/-- A cycle with a loop between two names, entered by two edges. -/
def tangle : Graph Nat :=
  let g := (empty.addEdge "In" "Left" 1).2
  let g := (g.addEdge "In" "Left" 2).2
  let g := (g.addEdge "Left" "Left" 3).2
  let g := (g.addEdge "Left" "Right" 4).2
  let g := (g.addEdge "Right" "Left" 5).2
  (g.addEdge "Right" "Out" 6).2

theorem built_tangle : tangle.Built :=
  .addEdge (.addEdge (.addEdge (.addEdge (.addEdge (.addEdge .empty _ _ _) _ _ _) _ _ _) _ _ _) _ _ _) _ _ _

theorem reachable_contractVertices_tangle :
    let after := tangle.contractVertices (fun n => n != "In" && n != "Out") fun i o => i.weight + o.weight
    after.1 = 2 ∧ after.2.names = ["In", "Out"] ∧ TransGen after.2.Leads "In" "Out" ∧
      "Out" ∈ after.2.reachable ["In"] ∧ "In" ∉ after.2.reachable ["Out"] := by
  intro after
  obtain ⟨hnames, hcount, hways⟩ := reachable_contractVertices built_tangle
    (fun n => n != "In" && n != "Out") fun i o => i.weight + o.weight
  have hkept : after.2.names = ["In", "Out"] := hnames.trans (by decide +kernel)
  have hin : "In" ∈ after.2.names := by simp [hkept]
  have hout : "Out" ∈ after.2.names := by simp [hkept]
  have hfirst : tangle.Leads "In" "Left" := by decide +kernel
  have hthen : tangle.Leads "Left" "Right" := by decide +kernel
  have hlast : tangle.Leads "Right" "Out" := by decide +kernel
  have hway : TransGen tangle.Leads "In" "Out" := .tail (.tail (.single hfirst) hthen) hlast
  refine ⟨hcount.trans (by decide +kernel), hkept, (hways _ hin _ hout).2.2 hway, ?_, ?_⟩
  · exact (hways _ hin _ hout).1.2 (by decide +kernel)
  · exact fun h => absurd ((hways _ hout _ hin).1.1 h) (by decide +kernel)

end Coupling.Graph
