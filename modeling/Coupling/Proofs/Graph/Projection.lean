/-
Projection has an edge where contraction leaves some.

`Via` joins two points by a way whose points in between are of one kind. Contraction
leaves an edge between two names just if a way leads from one to the other via
contracted names (`leads_contractNames`): a way via one more vertex is a way around it
(`via_of_bypass`). The search that projection makes from a kept vertex stops at
the others, so it finds those that ways via no kept vertex lead to
(`mem_directTargets`), and an edge is made for each (`mem_projected`). Every way
between kept vertices falls into such ways at the kept ones on it, so projection also
keeps what is reachable (`project_exact`).
-/
import Coupling.Proofs.Graph.Assembly
import Coupling.Proofs.Graph.Contraction

open Relation (ReflTransGen)

namespace Coupling.Graph

/-! ## Ways via points of one kind -/

/-- A way of one step or more, and all points between its ends are `inner`. -/
inductive Via {α : Type} (r : α → α → Prop) (inner : α → Prop) : α → α → Prop
  | last {x y : α} (hxy : r x y) : Via r inner x y
  | step {x y z : α} (hxz : r x z) (hz : inner z) (hzy : Via r inner z y) : Via r inner x y

namespace Via

variable {α β : Type} {r s : α → α → Prop} {inner : α → Prop} {v x y z : α}

theorem trans (hxy : Via r inner x y) (hy : inner y) (hyz : Via r inner y z) : Via r inner x z := by
  induction hxy with
  | last hxy => exact .step hxy hy hyz
  | step hxz hz _ ih => exact .step hxz hz (ih hy hyz)

/-- Ways can be followed along a map that keeps steps. -/
theorem lift {r' : β → β → Prop} {inner' : β → Prop} (f : α → β) (hr : ∀ a b, r a b → r' (f a) (f b))
    (hinner : ∀ a b, r a b → inner b → inner' (f b)) (hxy : Via r inner x y) : Via r' inner' (f x) (f y) := by
  induction hxy with
  | last hxy => exact .last (hr _ _ hxy)
  | step hxz hz _ ih => exact .step (hr _ _ hxz) (hinner _ _ hxz hz) ih

/-- Where steps avoid a point, and lead past it in one what led through it in two, ways around it are
ways via it. -/
theorem via_of_bypass (hs : ∀ x y, s x y ↔ x ≠ v ∧ y ≠ v ∧ (r x y ∨ r x v ∧ r v y)) (hx : x ≠ v) (hy : y ≠ v) :
    Via s inner x y ↔ Via r (fun z => z = v ∨ inner z) x y := by
  have hstep : ∀ {a b}, s a b → Via r (fun z => z = v ∨ inner z) a b := by
    intro a b hab
    obtain ⟨-, -, hab | ⟨hin, hout⟩⟩ := (hs a b).1 hab
    · exact .last hab
    · exact .step hin (.inl rfl) (.last hout)
  constructor
  · intro hway
    clear hx hy
    induction hway with
    | last hxy => exact hstep hxy
    | step hxz hz _ ih => exact (hstep hxz).trans (.inr hz) ih
  · intro hway
    -- a way that begins at the point goes on from a step to it
    suffices hgo : (x ≠ v → Via s inner x y) ∧ (x = v → ∀ u, u ≠ v → r u v → Via s inner u y) from hgo.1 hx
    clear hx
    induction hway with
    | last hxy =>
      refine ⟨fun hx => .last ((hs _ _).2 ⟨hx, hy, .inl hxy⟩), ?_⟩
      rintro rfl u hu hux
      exact .last ((hs _ _).2 ⟨hu, hy, .inr ⟨hux, hxy⟩⟩)
    | @step x y z hxz hz _ ih =>
      obtain ⟨ihother, ihpoint⟩ := ih hy
      by_cases hzv : z = v
      · subst hzv
        refine ⟨fun hx => ihpoint rfl x hx hxz, ?_⟩
        rintro rfl u hu hux
        exact ihpoint rfl u hu hux
      · have hrest : ∀ {u}, s u z → Via s inner u y := fun huz => .step huz (hz.resolve_left hzv) (ihother hzv)
        refine ⟨fun hx => hrest ((hs _ _).2 ⟨hx, hzv, .inl hxz⟩), ?_⟩
        rintro rfl u hu hux
        exact hrest ((hs _ _).2 ⟨hu, hzv, .inr ⟨hux, hxz⟩⟩)

/-- Steps that are made from `inner` points and from the start only lead where ways via `inner` points do. -/
theorem iff_reflTransGen {start : α} (hx : x ≠ start) :
    Via r inner start x ↔ ReflTransGen (fun a b => (inner a ∨ a = start) ∧ r a b) start x := by
  constructor
  · have hgo : ∀ {w}, Via r inner w x → inner w ∨ w = start →
        ReflTransGen (fun a b => (inner a ∨ a = start) ∧ r a b) w x := by
      clear hx
      intro w hway
      induction hway with
      | last hwx => exact fun hw => .single ⟨hw, hwx⟩
      | step hwz hz _ ih => exact fun hw => .head ⟨hw, hwz⟩ (ih (.inl hz))
    exact fun hway => hgo hway (.inr rfl)
  · intro hway
    suffices hgo : x = start ∨ Via r inner start x from hgo.resolve_left hx
    clear hx
    induction hway with
    | refl => exact .inl rfl
    | tail _ hstep ih =>
      obtain ⟨hopen, hstep⟩ := hstep
      rcases hopen with hopen | rfl
      · rcases ih with rfl | ih
        · exact .inr (.last hstep)
        · exact .inr (ih.trans hopen (.last hstep))
      · exact .inr (.last hstep)

theorem reflTransGen (hxy : Via r inner x y) : ReflTransGen r x y := by
  induction hxy with
  | last hxy => exact .single hxy
  | step hxz _ _ ih => exact .head hxz ih

/-- Where steps between kept points stand for ways via the others, they lead from kept point to kept point as
before. -/
theorem reflTransGen_iff {kept : α → Prop} (hs : ∀ x y, s x y ↔ kept x ∧ kept y ∧ x ≠ y ∧ Via r inner x y)
    (hr : ∀ x y, r x y → kept y ∨ inner y) (hx : kept x) (hy : kept y) : ReflTransGen s x y ↔ ReflTransGen r x y := by
  constructor
  · intro hway
    clear hx
    induction hway with
    | refl => exact .refl
    | tail _ hstep ih =>
      obtain ⟨hkept, -, -, hvia⟩ := (hs _ _).1 hstep
      exact (ih hkept).trans hvia.reflTransGen
  · intro hway
    have hgo : ∀ {w z}, kept w → kept z → Via r inner w z → ReflTransGen s z y → ReflTransGen s w y := by
      intro w z hw hz hvia hrest
      by_cases hne : w = z
      · exact hne ▸ hrest
      · exact .head ((hs w z).2 ⟨hw, hz, hne, hvia⟩) hrest
    -- from any point, a way to `y` comes to a kept point via others, and `s` leads on from there
    have hfirst : ∃ z, kept z ∧ (x = z ∨ Via r inner x z) ∧ ReflTransGen s z y := by
      clear hx
      induction hway using ReflTransGen.head_induction_on with
      | refl => exact ⟨y, hy, .inl rfl, .refl⟩
      | @head w v hwv _ ih =>
        obtain ⟨z, hz, hto, hrest⟩ := ih
        rcases hto with rfl | hvia
        · exact ⟨v, hz, .inr (.last hwv), hrest⟩
        · rcases hr w v hwv with hv | hv
          · exact ⟨v, hv, .inr (.last hwv), hgo hv hz hvia hrest⟩
          · exact ⟨z, hz, .inr (.step hwv hv hvia), hrest⟩
    obtain ⟨z, hz, hto, hrest⟩ := hfirst
    rcases hto with rfl | hvia
    · exact hrest
    · exact hgo hx hz hvia hrest

end Via

variable {ω : Type} {g : Graph ω} {merge : EdgeView ω → EdgeView ω → ω}

/-! ## Contraction -/

/-- Contracting distinct names leaves an edge between others where a way led via these names. -/
theorem WellFormed.leads_contractNames (h : g.WellFormed) {ns : List String} (hnodup : ns.Nodup)
    (hns : ∀ n ∈ ns, n ∈ g.names) {x y : String} (hx : x ∉ ns) (hy : y ∉ ns) :
    (Graph.contractNames merge ns g).2.Leads x y ↔ Via g.Leads (· ∈ ns) x y := by
  induction ns generalizing g with
  | nil =>
    refine ⟨.last, ?_⟩
    rintro (hxy | ⟨-, hz, -⟩)
    · exact hxy
    · exact absurd hz List.not_mem_nil
  | cons n ns ih =>
    obtain ⟨⟨v, name⟩, hv, rfl⟩ := mem_names.1 (hns n (by simp))
    have hid := h.idOf?_eq_some_iff.2 hv
    have hmem := h.mem_names_contract merge hv hnodup hns
    simp only [List.mem_cons, not_or] at hx hy
    simp only [Graph.contractNames, hid, List.mem_cons]
    rw [ih (h.contract merge (id_mem_ids hv)) hnodup.of_cons hmem hx.2 hy.2]
    exact Via.via_of_bypass (fun a b => h.leads_contract hv) hx.1 hy.1

/-- Between kept names, edges that are left stand for ways via the others. -/
theorem WellFormed.leads_contractVertices (h : g.WellFormed) {wanted : List String} {x y : String} (hx : x ∈ wanted)
    (hy : y ∈ wanted) :
    (g.contractVertices (!wanted.contains ·) merge).2.Leads x y ↔ Via g.Leads (· ∉ wanted) x y := by
  refine (h.leads_contractNames (h.names.filter _) (fun n hn => List.mem_of_mem_filter hn)
    (by simp [hx]) (by simp [hy])).trans ⟨fun hway => ?_, fun hway => ?_⟩
  · exact hway.lift id (fun _ _ => id) fun a b _ hb => by simpa using (List.mem_filter.1 hb).2
  · refine hway.lift id (fun _ _ => id) fun a b hab hb => List.mem_filter.2 ⟨?_, by simpa using hb⟩
    obtain ⟨-, w, -, hw, -⟩ := h.leads_iff.1 hab
    exact name_mem_names hw

/-! ## Searching between kept vertices -/

/-- The search from a vertex goes on from no other kept one, so it finds what ways via no kept vertex lead
to. -/
theorem mem_directTargets {kept : List Vertex} {start x : Vertex} :
    x ∈ g.directTargets kept start ↔ x ∈ kept ∧ x.id ≠ start.id ∧
      Via (fun a b => b ∈ g.successors a) (fun v => kept.any (·.id == v) = false) start.id x.id := by
  have hnext : ∀ a b, b ∈ (if kept.any (·.id == a) = true ∧ a ≠ start.id then [] else g.successors a) ↔
      (kept.any (·.id == a) = false ∨ a = start.id) ∧ b ∈ g.successors a := by
    intro a b
    cases hkept : kept.any (·.id == a) <;> by_cases ha : a = start.id <;> simp [ha]
  unfold directTargets
  simp only [List.mem_filter, Bool.and_eq_true, bne_iff_ne, List.contains_iff_mem]
  refine and_congr_right fun _ => and_congr_right fun hne => ?_
  rw [Via.iff_reflTransGen hne, Search.mem_breadthFirst (U := start.id :: g.edges.map (·.target)) (by simp) ?_ ?_]
  · simp only [List.mem_singleton, exists_eq_left, hnext]
  · intro a b hb
    obtain ⟨e, he, -, rfl⟩ := mem_successors.1 ((hnext a b).1 hb).2
    exact List.mem_cons_of_mem _ (List.mem_map_of_mem he)
  · rw [List.length_cons, List.length_map, Nat.add_comm]
    exact Nat.le_refl _

theorem WellFormed.any_among (h : g.WellFormed) (wanted : List String) {v : Nat} (hv : v ∈ g.ids) :
    (g.among wanted).any (·.id == v) = wanted.contains (g.nameOf v) := by
  rw [Bool.eq_iff_iff, List.any_eq_true]
  constructor
  · rintro ⟨x, hx, hid⟩
    obtain ⟨hx, hwanted⟩ := List.mem_filter.1 hx
    rw [← beq_iff_eq.1 hid, h.nameOf_of_mem hx]
    exact hwanted
  · intro hwanted
    exact ⟨⟨v, g.nameOf v⟩, List.mem_filter.2 ⟨h.mem_vertices hv, hwanted⟩, by simp⟩

/-- Ways along vertices are ways along their names. -/
theorem WellFormed.via_successors_iff (h : g.WellFormed) (wanted : List String) {x y : Vertex} (hx : x ∈ g.vertices)
    (hy : y ∈ g.vertices) :
    Via (fun a b => b ∈ g.successors a) (fun v => (g.among wanted).any (·.id == v) = false) x.id y.id ↔
      Via g.Leads (· ∉ wanted) x.name y.name := by
  have hends : ∀ {a b}, b ∈ g.successors a → a ∈ g.ids ∧ b ∈ g.ids := fun hab => by
    obtain ⟨e, he, rfl, rfl⟩ := mem_successors.1 hab
    exact ⟨h.sources e he, h.targets e he⟩
  constructor
  · intro hway
    have hnames : Via g.Leads (· ∉ wanted) (g.nameOf x.id) (g.nameOf y.id) := hway.lift g.nameOf
      (fun a b hab => h.leads_iff.2
        ⟨a, b, h.mem_vertices (hends hab).1, h.mem_vertices (hends hab).2, hab⟩)
      (fun a b hab hb => by
        rw [h.any_among wanted (hends hab).2] at hb
        simpa using hb)
    rwa [h.nameOf_of_mem hx, h.nameOf_of_mem hy] at hnames
  · intro hway
    have hid : ∀ {z : Vertex}, z ∈ g.vertices → (g.idOf? z.name).getD 0 = z.id := fun hz => by
      rw [h.idOf?_eq_some_iff.2 hz]
      rfl
    have hids : Via (fun a b => b ∈ g.successors a) (fun v => (g.among wanted).any (·.id == v) = false)
        ((g.idOf? x.name).getD 0) ((g.idOf? y.name).getD 0) := hway.lift (fun n => (g.idOf? n).getD 0)
      (fun a b hab => by
        obtain ⟨v, w, hv, hw, hab⟩ := h.leads_iff.1 hab
        rw [hid hv, hid hw]
        exact hab)
      (fun a b hab hb => by
        obtain ⟨v, w, -, hw, -⟩ := h.leads_iff.1 hab
        rw [hid hw, h.any_among wanted (id_mem_ids hw), h.nameOf_of_mem hw]
        simpa using hb)
    rwa [hid hx, hid hy] at hids

/-! ## Projection -/

/-- The pairs of kept names that are joined. -/
def projected (g : Graph ω) (wanted : List String) : List (String × String) :=
  (g.among wanted).flatMap fun start =>
    (g.directTargets (g.among wanted) start).map fun x => (start.name, x.name)

theorem project_eq {ψ : Type} (g : Graph ω) (wanted : List String) (weigh : String → String → ψ) :
    g.project wanted weigh = (empty.addVertices ((g.among wanted).map (·.name))).addEdges
      ((g.projected wanted).map fun z => (z.1, z.2, weigh z.1 z.2)) := by
  unfold project addEdges projected
  rw [List.foldl_map, List.foldl_flatMap]
  simp only [List.foldl_map]

theorem WellFormed.mem_projected (h : g.WellFormed) {wanted : List String} {u v : String} :
    (u, v) ∈ g.projected wanted ↔ (u ∈ g.names ∧ u ∈ wanted) ∧ (v ∈ g.names ∧ v ∈ wanted) ∧ u ≠ v ∧
      Via g.Leads (· ∉ wanted) u v := by
  simp only [projected, List.mem_flatMap, List.mem_map, Prod.mk.injEq]
  constructor
  · rintro ⟨x, hx, y, hy, rfl, rfl⟩
    obtain ⟨hy, hne, hway⟩ := mem_directTargets.1 hy
    obtain ⟨hx, hxw⟩ := mem_among.1 hx
    obtain ⟨hy, hyw⟩ := mem_among.1 hy
    exact ⟨⟨name_mem_names hx, hxw⟩, ⟨name_mem_names hy, hyw⟩, fun heq => hne ((h.name_eq_iff hx hy).1 heq).symm,
      (h.via_successors_iff wanted hx hy).1 hway⟩
  · rintro ⟨⟨hu, huw⟩, ⟨hv, hvw⟩, hne, hway⟩
    obtain ⟨x, hx, rfl⟩ := mem_names.1 hu
    obtain ⟨y, hy, rfl⟩ := mem_names.1 hv
    have htarget := mem_directTargets.2 ⟨mem_among.2 ⟨hy, hvw⟩, fun heq => hne ((h.name_eq_iff hx hy).2 heq.symm),
      (h.via_successors_iff wanted hx hy).2 hway⟩
    exact ⟨x, mem_among.2 ⟨hx, huw⟩, y, htarget, rfl, rfl⟩

theorem WellFormed.projected_nodup (h : g.WellFormed) (wanted : List String) : (g.projected wanted).Nodup := by
  have hnames : ((g.among wanted).map (·.name)).Nodup := by
    rw [g.names_among]
    exact h.names.filter _
  refine List.nodup_flatMap.2 ⟨fun start _ => ?_, ?_⟩
  · have htargets : ((g.directTargets (g.among wanted) start).map (·.name)).Nodup :=
      hnames.sublist (List.filter_sublist.map _)
    have hpairs := htargets.map (f := fun n => (start.name, n)) fun a b hab => (Prod.mk.inj hab).2
    rwa [List.map_map] at hpairs
  · refine (List.pairwise_map.1 hnames).imp fun hne => ?_
    refine List.disjoint_left.2 ?_
    simp only [List.mem_map, not_exists, not_and]
    rintro _ ⟨x, -, rfl⟩ y - heq
    exact hne (Prod.mk.inj heq).1.symm

/-- What a projection is made of. -/
theorem WellFormed.contents_project {ψ : Type} (h : g.WellFormed) (wanted : List String) (weigh : String → String → ψ) :
    (g.project wanted weigh).names = g.names.filter (wanted.contains ·) ∧
      (g.project wanted weigh).views.map EdgeView.content =
        ((g.projected wanted).map fun z => (z.1, z.2, weigh z.1 z.2)).reverse := by
  have hbase : (empty.addVertices ((g.among wanted).map (·.name)) : Graph ψ).names =
      g.names.filter (wanted.contains ·) := by
    rw [g.names_among, names_addVertices_empty]
    exact eraseDups_of_nodup (h.names.filter _)
  have hfit := (Built.empty.addVertices ((g.among wanted).map (·.name)) : Built (_ : Graph ψ)).wellFormed
  have hends : ∀ z ∈ (g.projected wanted).map fun z => (z.1, z.2, weigh z.1 z.2),
      z.1 ∈ (empty.addVertices ((g.among wanted).map (·.name)) : Graph ψ).names ∧
        z.2.1 ∈ (empty.addVertices ((g.among wanted).map (·.name)) : Graph ψ).names := by
    intro z hz
    obtain ⟨⟨u, v⟩, huv, rfl⟩ := List.mem_map.1 hz
    obtain ⟨hu, hv, -⟩ := h.mem_projected.1 huv
    rw [hbase]
    exact ⟨List.mem_filter.2 ⟨hu.1, by simpa using hu.2⟩, List.mem_filter.2 ⟨hv.1, by simpa using hv.2⟩⟩
  rw [project_eq, hfit.names_addEdges_of_mem hends, hfit.contents_addEdges, hbase]
  refine ⟨rfl, ?_⟩
  unfold views
  rw [edges_addVertices]
  exact List.append_nil _

theorem edgesBetween_ne_nil_iff {u v : String} : g.edgesBetween u v ≠ [] ↔ g.Leads u v := by
  unfold edgesBetween Leads
  rw [ne_eq, List.filter_eq_nil_iff]
  simp

/-- There is one edge between two names of a projection if they are joined, and none otherwise. -/
theorem WellFormed.edgesBetween_project {ψ : Type} (h : g.WellFormed) (wanted : List String)
    (weigh : String → String → ψ) (u v : String) :
    ((g.project wanted weigh).edgesBetween u v).map EdgeView.content =
      List.replicate ((g.projected wanted).count (u, v)) (u, v, weigh u v) := by
  have hcontents := (h.contents_project wanted weigh).2
  rw [← List.map_reverse] at hcontents
  have hends : (g.project wanted weigh).edgesBetween u v =
      (g.project wanted weigh).views.filter ((fun z => z.1 == u && z.2.1 == v) ∘ EdgeView.content) :=
    (built_project g wanted weigh).wellFormed.edgesBetween_eq u v
  have hjoined : (g.projected wanted).reverse.filter (fun z => z.1 == u && z.2 == v) =
      List.replicate ((g.projected wanted).count (u, v)) (u, v) :=
    (List.filter_beq (u, v)).trans (by rw [List.count_reverse])
  rw [hends, ← List.filter_map, hcontents, List.filter_map]
  exact (congrArg _ hjoined).trans List.map_replicate

theorem WellFormed.length_edgesBetween_project {ψ : Type} (h : g.WellFormed) (wanted : List String)
    (weigh : String → String → ψ) (u v : String) :
    ((g.project wanted weigh).edgesBetween u v).length = (g.projected wanted).count (u, v) := by
  have hlength := congrArg List.length (h.edgesBetween_project wanted weigh u v)
  rwa [List.length_map, List.length_replicate] at hlength

theorem WellFormed.leads_project {ψ : Type} (h : g.WellFormed) (wanted : List String) (weigh : String → String → ψ)
    (u v : String) : (g.project wanted weigh).Leads u v ↔ (u, v) ∈ g.projected wanted := by
  rw [← edgesBetween_ne_nil_iff, ← List.length_pos_iff, h.length_edgesBetween_project, List.count_pos_iff]

/-- **Projection agrees with contraction.** Projecting to names leaves the names, in their order, that
contracting the others does. Of two different names one has an edge to the other in the projection, and then
one only, just if it has some after contraction. -/
theorem project_agrees_contractVertices {ψ : Type} (hg : g.Built) (wanted : List String) (weigh : String → String → ψ)
    (merge : EdgeView ω → EdgeView ω → ω) :
    (g.project wanted weigh).names = (g.contractVertices (!wanted.contains ·) merge).2.names ∧
      ∀ u v, u ≠ v →
        ((g.project wanted weigh).edgesBetween u v ≠ [] ↔
          (g.contractVertices (!wanted.contains ·) merge).2.edgesBetween u v ≠ []) ∧
        ((g.project wanted weigh).edgesBetween u v).length ≤ 1 := by
  have h := hg.wellFormed
  have hnames := h.names_contractVertices (!wanted.contains ·) merge
  simp only [Bool.not_not] at hnames
  have hcount := h.length_edgesBetween_project wanted weigh
  refine ⟨(h.contents_project wanted weigh).1.trans hnames.symm, fun u v hne => ⟨?_, ?_⟩⟩
  · rw [← List.length_pos_iff, hcount, List.count_pos_iff, h.mem_projected, edgesBetween_ne_nil_iff]
    have hkept : ∀ n, n ∈ (g.contractVertices (!wanted.contains ·) merge).2.names ↔ n ∈ g.names ∧ n ∈ wanted := by
      intro n
      rw [hnames, List.mem_filter, List.contains_iff_mem]
    constructor
    · rintro ⟨hu, hv, -, hway⟩
      exact (h.leads_contractVertices hu.2 hv.2).2 hway
    · intro hlead
      obtain ⟨_, _, hu, hv, -⟩ := (hg.contractVertices _ merge).wellFormed.leads_iff.1 hlead
      have hu := (hkept u).1 (name_mem_names hu)
      have hv := (hkept v).1 (name_mem_names hv)
      exact ⟨hu, hv, hne, (h.leads_contractVertices hu.2 hv.2).1 hlead⟩
  · rw [hcount]
    exact List.nodup_iff_count_le_one.1 (h.projected_nodup wanted) (u, v)

theorem project_agrees_contractVertices_tangle :
    let after := (tangle.contractVertices (!List.contains ["Out", "In", "Elsewhere"] ·) fun i o => i.weight + o.weight).2
    let projection := tangle.project ["Out", "In", "Elsewhere"] fun u v => u ++ v
    projection.names = ["In", "Out"] ∧ after.names = ["In", "Out"] ∧ (after.edgesBetween "In" "Out").length = 2 ∧
      (projection.edgesBetween "In" "Out").length = 1 ∧ projection.edgesBetween "Out" "In" = [] := by
  intro after projection
  obtain ⟨hnames, hedges⟩ := project_agrees_contractVertices built_tangle ["Out", "In", "Elsewhere"] (fun u v => u ++ v)
    fun i o => i.weight + o.weight
  have hleft : after.names = ["In", "Out"] := by decide +kernel
  have hways : (after.edgesBetween "In" "Out").length = 2 := by decide +kernel
  have hnone : (after.edgesBetween "Out" "In").length = 0 := by decide +kernel
  refine ⟨hnames.trans hleft, hleft, hways, ?_, ?_⟩
  · obtain ⟨hiff, hle⟩ := hedges "In" "Out" (by decide)
    have hpos := List.length_pos_iff.2 (hiff.2 (List.ne_nil_of_length_pos (by rw [hways]; decide)))
    exact Nat.le_antisymm hle hpos
  · obtain ⟨hiff, -⟩ := hedges "Out" "In" (by decide)
    exact not_not.1 fun hsome => hiff.1 hsome (List.length_eq_zero_iff.1 hnone)

theorem WellFormed.mem_names_project {ψ : Type} (h : g.WellFormed) {wanted : List String}
    {weigh : String → String → ψ} {name : String} :
    name ∈ (g.project wanted weigh).names ↔ name ∈ g.names ∧ name ∈ wanted := by
  rw [(h.contents_project wanted weigh).1, List.mem_filter, List.contains_iff_mem]

/-- What is reachable between kept names stays so. -/
theorem WellFormed.reachable_project {ψ : Type} (h : g.WellFormed) {wanted : List String}
    {weigh : String → String → ψ} {u v : String} (hu : u ∈ (g.project wanted weigh).names)
    (hv : v ∈ (g.project wanted weigh).names) :
    v ∈ (g.project wanted weigh).reachable [u] ↔ v ∈ g.reachable [u] := by
  have hp := (built_project g wanted weigh).wellFormed
  have hjoined : ∀ x y, (g.project wanted weigh).Leads x y ↔ x ∈ (g.project wanted weigh).names ∧
      y ∈ (g.project wanted weigh).names ∧ x ≠ y ∧ Via g.Leads (· ∉ wanted) x y := by
    intro x y
    rw [h.leads_project, h.mem_projected, h.mem_names_project, h.mem_names_project]
  have hcover : ∀ x y, g.Leads x y → y ∈ (g.project wanted weigh).names ∨ y ∉ wanted := by
    intro x y hxy
    obtain ⟨-, _, -, hy, -⟩ := h.leads_iff.1 hxy
    by_cases hwanted : y ∈ wanted
    · exact .inl (h.mem_names_project.2 ⟨name_mem_names hy, hwanted⟩)
    · exact .inr hwanted
  simp only [hp.mem_reachable, h.mem_reachable, List.mem_singleton, exists_eq_left]
  rw [Via.reflTransGen_iff hjoined hcover hu hv]
  exact and_congr_left fun _ => iff_of_true hu (h.mem_names_project.1 hu).1

/-- **Projection is exact.** It has the wanted names in their order. One name has an edge to another, and then one
with the weight asked for, just if a way leads there via names that are not wanted; no other edge is made. So what
is reachable between wanted names stays so. -/
theorem project_exact {ψ : Type} (hg : g.Built) (wanted : List String) (weigh : String → String → ψ) :
    let projection := g.project wanted weigh
    projection.names = g.names.filter (wanted.contains ·) ∧
      (∀ e ∈ projection.edgeViews, e.source ∈ projection.names ∧ e.target ∈ projection.names) ∧
      ∀ u ∈ projection.names, ∀ v ∈ projection.names,
        (u ≠ v ∧ Via g.Leads (· ∉ wanted) u v →
          (projection.edgesBetween u v).map EdgeView.content = [(u, v, weigh u v)]) ∧
        (¬ (u ≠ v ∧ Via g.Leads (· ∉ wanted) u v) → projection.edgesBetween u v = []) ∧
        (v ∈ projection.reachable [u] ↔ v ∈ g.reachable [u]) := by
  intro projection
  have h := hg.wellFormed
  have hp : projection.WellFormed := (built_project g wanted weigh).wellFormed
  refine ⟨(h.contents_project wanted weigh).1, fun e he => ?_, fun u hu v hv => ⟨fun hway => ?_, fun hway => ?_, ?_⟩⟩
  · have he := (edgeViews_perm _).mem_iff.1 he
    exact ⟨hp.source_mem he, hp.target_mem he⟩
  · have hmem := h.mem_projected.2 ⟨h.mem_names_project.1 hu, h.mem_names_project.1 hv, hway⟩
    rw [h.edgesBetween_project, List.count_eq_one_of_mem (h.projected_nodup wanted) hmem]
    rfl
  · by_contra hsome
    have hlead := edgesBetween_ne_nil_iff.1 hsome
    exact hway (h.mem_projected.1 ((h.leads_project wanted weigh u v).1 hlead)).2.2
  · exact h.reachable_project hu hv

theorem project_exact_tangle :
    let projection := tangle.project ["Out", "Left", "Elsewhere"] fun u v => u ++ v
    projection.names = ["Left", "Out"] ∧
      (projection.edgesBetween "Left" "Out").map EdgeView.content = [("Left", "Out", "LeftOut")] ∧
      projection.edgesBetween "Left" "Left" = [] ∧ "Out" ∈ projection.reachable ["Left"] := by
  intro projection
  obtain ⟨hnames, -, hpairs⟩ := project_exact built_tangle ["Out", "Left", "Elsewhere"] fun u v => u ++ v
  have hkept : projection.names = ["Left", "Out"] := hnames.trans (by decide +kernel)
  have hleft : "Left" ∈ projection.names := by simp [hkept]
  have hout : "Out" ∈ projection.names := by simp [hkept]
  have hway : Via tangle.Leads (· ∉ ["Out", "Left", "Elsewhere"]) "Left" "Out" :=
    .step (z := "Right") (by decide +kernel) (by decide) (.last (by decide +kernel))
  refine ⟨hkept, ?_, ?_, ?_⟩
  · exact (hpairs _ hleft _ hout).1 ⟨by decide, hway⟩
  · exact (hpairs _ hleft _ hleft).2.1 fun hloop => hloop.1 rfl
  · exact (hpairs _ hleft _ hout).2.2.2 (by decide +kernel)

end Coupling.Graph
