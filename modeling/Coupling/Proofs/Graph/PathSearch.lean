/-
What a search for shortest paths knows.

While the queue is worked off, the vertices looked at are settled: no edge followed
later improves them, as distances only come up in order (`Progress.relax`). Each vertex
found has a path through settled ones, by which the search came to it. Where an edge out
of a settled vertex leads, a distance is known that is no longer than by that edge; so
once the queue is empty every walk ends in a vertex whose distance is no longer than the
walk (`Progress.exists_distance`). Every edge is followed once, which bounds the steps; a
run ends with the queue empty, or with an edge out of a vertex found whose cost is refused
(`Progress.run`).
-/
import Coupling.Proofs.Graph.Walk
import Mathlib.Data.List.Basic

namespace Coupling

/-- Costs whose sums, the distances, are ranked by whole numbers. -/
class RankedCost (γ : Type) [Cost γ] where
  IsDistance : γ → Prop
  rank : γ → Nat
  isDistance_zero : IsDistance Cost.zero
  rank_zero : rank Cost.zero = 0
  isDistance_add {a c : γ} : IsDistance a → Cost.isValid c = true → IsDistance (Cost.add a c)
  le_rank_add {a c : γ} : IsDistance a → Cost.isValid c = true → rank a ≤ rank (Cost.add a c)
  rank_add_le {a b c : γ} : IsDistance a → IsDistance b → Cost.isValid c = true → rank a ≤ rank b →
    rank (Cost.add a c) ≤ rank (Cost.add b c)
  less_iff {a b : γ} : IsDistance a → IsDistance b → (Cost.less a b = true ↔ rank a < rank b)
  compare_eq {a b : γ} : IsDistance a → IsDistance b → Cost.compare a b = compare (rank a) (rank b)

namespace Graph

open RankedCost (IsDistance rank)

variable {ω γ : Type} [Cost γ] {g : Graph ω} {costOf : EdgeView ω → γ} {source : Nat}

/-- The cost of a path, added up from its first edge on. -/
def costAlong (costOf : EdgeView ω → γ) (p : List (EdgeView ω)) : γ :=
  p.foldl (fun distance e => Cost.add distance (costOf e)) Cost.zero

theorem costAlong_concat (p : List (EdgeView ω)) (e : EdgeView ω) :
    costAlong costOf (p ++ [e]) = Cost.add (costAlong costOf p) (costOf e) := by
  simp [costAlong]

/-- The edges that can be reached from a vertex have valid costs. -/
def ValidFrom (g : Graph ω) (costOf : EdgeView ω → γ) (source : Nat) : Prop :=
  ∀ v p, g.IdWalk source v p → ∀ e ∈ g.outOf v, Cost.isValid (costOf (g.view e)) = true

theorem ValidFrom.along (hvalid : g.ValidFrom costOf source) {v : Nat} {p : List (Edge ω)} (hp : g.IdWalk source v p) :
    ∀ e ∈ p.map g.view, Cost.isValid (costOf e) = true := by
  induction p using List.reverseRecOn generalizing v with
  | nil => simp
  | append_singleton p e ih =>
    obtain ⟨u, hp, he, -⟩ := hp.of_concat
    simpa [or_imp, forall_and] using ⟨by simpa using ih hp, hvalid u p hp e he⟩

/-- The edges out of these vertices have valid costs. -/
def ValidAt (g : Graph ω) (costOf : EdgeView ω → γ) (vs : List Nat) : Prop :=
  ∀ v ∈ vs, ∀ e ∈ g.outOf v, Cost.isValid (costOf (g.view e)) = true

/-- What is said of an edge whose cost is refused. -/
def refusal (costOf : EdgeView ω → γ) (e : EdgeView ω) : Error :=
  .invalidWeight (Cost.render (costOf e)) e.source e.target

namespace PathSearch

variable {s : PathSearch γ}

theorem enqueue_perm (d : γ) (v : Nat) (queue : List (γ × Nat)) : (enqueue d v queue).Perm ((d, v) :: queue) := by
  induction queue with
  | nil => exact .refl _
  | cons z queue ih =>
    unfold enqueue
    split
    · exact .refl _
    · exact (ih.cons z).trans (.swap _ _ _)

theorem mem_enqueue {d : γ} {v : Nat} {queue : List (γ × Nat)} {z : γ × Nat} :
    z ∈ enqueue d v queue ↔ z = (d, v) ∨ z ∈ queue := by
  rw [(enqueue_perm d v queue).mem_iff, List.mem_cons]

/-! ## One edge -/

theorem lt_of_improves {v : Nat} {d known : γ} (h : s.improves v d = true) (hknown : s.distances.get? v = some known) :
    Cost.less d known = true := by
  simpa [improves, hknown] using h

theorem exists_of_not_improves {v : Nat} {d : γ} (h : s.improves v d = false) :
    ∃ known, s.distances.get? v = some known ∧ Cost.less d known = false := by
  unfold improves at h
  split at h
  · cases h
  · exact ⟨_, by assumption, h⟩

theorem relax_of_improves {d c : γ} {e : Edge ω} (h : s.improves e.target (Cost.add d c) = true) :
    s.relax d c e = { distances := s.distances.insert e.target (Cost.add d c)
                      arrivals := s.arrivals.insert e.target e.id
                      queue := enqueue (Cost.add d c) e.target s.queue } := by
  simp [relax, h]

theorem relax_of_not_improves {d c : γ} {e : Edge ω} (h : s.improves e.target (Cost.add d c) = false) :
    s.relax d c e = s := by
  simp [relax, h]

theorem length_queue_relax (d c : γ) (e : Edge ω) : (s.relax d c e).queue.length ≤ s.queue.length + 1 := by
  cases h : s.improves e.target (Cost.add d c)
  · rw [relax_of_not_improves h]
    omega
  · rw [relax_of_improves h, (enqueue_perm _ _ _).length_eq]
    exact Nat.le_refl _

/-- Edges are not followed if one of them has a cost that is refused, and the error names such an edge. -/
theorem relaxAll_of_refused {es : List (Edge ω)} (hbad : ∃ e ∈ es, Cost.isValid (costOf (g.view e)) = false) (d : γ)
    (s : PathSearch γ) :
    ∃ e ∈ es, Cost.isValid (costOf (g.view e)) = false ∧
      relaxAll g costOf d es s = .error (refusal costOf (g.view e)) := by
  induction es generalizing s with
  | nil =>
    obtain ⟨e, he, -⟩ := hbad
    cases he
  | cons f es ih =>
    cases hf : Cost.isValid (costOf (g.view f))
    · exact ⟨f, List.mem_cons_self, hf, by simp [relaxAll, hf, refusal]⟩
    · have hrest : ∃ e ∈ es, Cost.isValid (costOf (g.view e)) = false := by
        obtain ⟨e, he, hbad⟩ := hbad
        rcases List.mem_cons.1 he with rfl | he
        · rw [hf] at hbad
          cases hbad
        · exact ⟨e, he, hbad⟩
      obtain ⟨e, he, hbad, herror⟩ := ih hrest (s.relax d (costOf (g.view f)) f)
      exact ⟨e, List.mem_cons_of_mem _ he, hbad, by rw [relaxAll, if_pos hf, herror]⟩

/-! ## Paths found -/

/-- The path by which a vertex was found: it goes through settled vertices, none of them twice, and ends with
the edge of arrival. -/
structure Found (g : Graph ω) (costOf : EdgeView ω → γ) (source : Nat) (s : PathSearch γ) (settled : List Nat)
    (paths : Nat → List (Edge ω)) (v : Nat) (d : γ) : Prop where
  walk : g.IdWalk source v (paths v)
  cost : costAlong costOf ((paths v).map g.view) = d
  simple : (source :: (paths v).map (·.target)).Nodup
  through : ∀ u ∈ source :: (paths v).map (·.target), u = v ∨ u ∈ settled
  arrival : v ≠ source → ∃ e ∈ g.edges, e.target = v ∧ e.source ∈ settled ∧ s.arrivals.get? v = some e.id ∧
    paths v = paths e.source ++ [e]

namespace Found

variable {s' : PathSearch γ} {settled settled' : List Nat} {paths paths' : Nat → List (Edge ω)} {v : Nat} {d : γ}

/-- Nothing changes for a vertex if others are found or settled. -/
theorem mono (h : Found g costOf source s settled paths v d) (hsettled : ∀ u ∈ settled, u ∈ settled')
    (hpaths : ∀ u, u = v ∨ u ∈ settled → paths' u = paths u) (harrivals : s'.arrivals.get? v = s.arrivals.get? v) :
    Found g costOf source s' settled' paths' v d := by
  have hpath := hpaths v (.inl rfl)
  refine ⟨hpath ▸ h.walk, hpath ▸ h.cost, hpath ▸ h.simple, fun u hu => ?_, fun hne => ?_⟩
  · exact (h.through u (hpath ▸ hu)).imp id (hsettled u)
  · obtain ⟨e, he, htarget, hsource, hid, hlast⟩ := h.arrival hne
    refine ⟨e, he, htarget, hsettled _ hsource, harrivals.trans hid, ?_⟩
    rw [hpath, hlast, hpaths _ (.inr hsource)]

/-- The path to a settled vertex goes on by an edge to one that is not. -/
theorem concat {e : Edge ω} (h : Found g costOf source s settled paths e.source d) (he : e ∈ g.edges)
    (hsource : e.source ∈ settled) (htarget : e.target ∉ settled) (hsame : paths' e.source = paths e.source)
    (hpath : paths' e.target = paths e.source ++ [e]) (hid : s'.arrivals.get? e.target = some e.id) :
    Found g costOf source s' settled paths' e.target (Cost.add d (costOf (g.view e))) := by
  have hthrough : ∀ u ∈ source :: (paths e.source).map (·.target), u ∈ settled := fun u hu =>
    (h.through u hu).elim (fun heq => heq ▸ hsource) id
  have hvisited : source :: (paths' e.target).map (·.target) =
      (source :: (paths e.source).map (·.target)) ++ [e.target] := by simp [hpath]
  refine ⟨?_, ?_, ?_, fun u hu => ?_, fun _ => ⟨e, he, rfl, hsource, hid, hpath.trans (by rw [hsame])⟩⟩
  · exact hpath ▸ h.walk.concat (mem_outOf.2 ⟨he, rfl⟩)
  · rw [hpath, List.map_append, List.map_singleton, costAlong_concat, h.cost]
  · rw [hvisited, List.nodup_append]
    refine ⟨h.simple, List.nodup_singleton _, fun u hu w hw => ?_⟩
    rintro rfl
    exact htarget (List.mem_singleton.1 hw ▸ hthrough u hu)
  · rw [hvisited, List.mem_append, List.mem_singleton] at hu
    exact hu.elim (fun hu => .inr (hthrough u hu)) .inl

end Found

variable [RankedCost γ]

theorem isDistance_costAlong {p : List (EdgeView ω)} (hvalid : ∀ e ∈ p, Cost.isValid (costOf e) = true) :
    IsDistance (costAlong costOf p) := by
  induction p using List.reverseRecOn with
  | nil => exact RankedCost.isDistance_zero
  | append_singleton p e ih =>
    rw [costAlong_concat]
    exact RankedCost.isDistance_add (ih fun f hf => hvalid f (by simp [hf])) (hvalid e (by simp))

/-- A vertex is put where its distance belongs. -/
theorem enqueue_sorted {d : γ} {v : Nat} {queue : List (γ × Nat)} (hd : IsDistance d)
    (hqueue : ∀ z ∈ queue, IsDistance z.1) (hsorted : queue.Pairwise fun a b => rank a.1 ≤ rank b.1) :
    (enqueue d v queue).Pairwise fun a b => rank a.1 ≤ rank b.1 := by
  induction queue with
  | nil => exact List.pairwise_singleton _ _
  | cons z queue ih =>
    obtain ⟨hz, hrest⟩ := List.forall_mem_cons.1 hqueue
    obtain ⟨hfirst, hsorted⟩ := List.pairwise_cons.1 hsorted
    unfold enqueue
    rw [RankedCost.compare_eq hd hz]
    split
    · rename_i hle
      have hle : rank d ≤ rank z.1 := by
        by_contra hlt
        rw [Nat.compare_eq_gt.2 (Nat.not_le.1 hlt)] at hle
        cases hle
      refine List.pairwise_cons.2 ⟨fun b hb => ?_, List.pairwise_cons.2 ⟨hfirst, hsorted⟩⟩
      rcases List.mem_cons.1 hb with rfl | hb
      · exact hle
      · exact Nat.le_trans hle (hfirst b hb)
    · rename_i hgt
      have hge : rank z.1 ≤ rank d := by
        by_contra hlt
        rw [Nat.compare_eq_lt.2 (Nat.not_le.1 hlt)] at hgt
        exact absurd rfl hgt
      refine List.pairwise_cons.2 ⟨fun b hb => ?_, ih hrest hsorted⟩
      rcases mem_enqueue.1 hb with rfl | hb
      · exact hge
      · exact hfirst b hb

/-! ## What the queue holds -/

/-- What holds of the queue. It is in order, and nothing in it is nearer than `level`. A vertex with a distance
that is not settled is in it with that distance; all other entries have been overtaken. -/
structure Queued (s : PathSearch γ) (settled : List Nat) (level : Nat) : Prop where
  far : ∀ z ∈ s.queue, IsDistance z.1 ∧ level ≤ rank z.1
  waiting : ∀ v d, s.distances.get? v = some d → v ∉ settled → (d, v) ∈ s.queue
  overtaken : ∀ z ∈ s.queue, ∃ d, s.distances.get? z.2 = some d ∧ rank d ≤ rank z.1 ∧
    (z.2 ∈ settled → rank d < rank z.1)
  sorted : s.queue.Pairwise fun a b => rank a.1 ≤ rank b.1
  distinct : s.queue.Pairwise fun a b => a.2 = b.2 → rank a.1 ≠ rank b.1

namespace Queued

variable {settled : List Nat} {level v : Nat} {d best next : γ} {queue : List (γ × Nat)}

/-- An entry that was overtaken can be left out. -/
theorem skip (h : Queued s settled level) (hqueue : s.queue = (d, v) :: queue) (hbest : s.distances.get? v = some best)
    (hlt : rank best < rank d) : Queued { s with queue } settled level := by
  have hsub : ∀ z ∈ queue, z ∈ s.queue := fun z hz => hqueue ▸ List.mem_cons_of_mem _ hz
  refine ⟨fun z hz => h.far z (hsub z hz), fun u c hu hunsettled => ?_, fun z hz => h.overtaken z (hsub z hz),
    (List.pairwise_cons.1 (hqueue ▸ h.sorted)).2, (List.pairwise_cons.1 (hqueue ▸ h.distinct)).2⟩
  rcases List.mem_cons.1 (hqueue ▸ h.waiting u c hu hunsettled) with heq | hmem
  · obtain ⟨rfl, rfl⟩ := Prod.mk.inj heq
    rw [Option.some.inj (hbest.symm.trans hu)] at hlt
    exact absurd hlt (Nat.lt_irrefl _)
  · exact hmem

/-- An entry that was not overtaken is that of a vertex to be settled, with its distance. -/
theorem of_not_overtaken (h : Queued s settled level) (hqueue : s.queue = (d, v) :: queue)
    (hbest : s.distances.get? v = some best) (hnot : ¬ rank best < rank d) : v ∉ settled ∧ best = d := by
  obtain ⟨best', hbest', hle, hsettled⟩ := h.overtaken (d, v) (hqueue ▸ List.mem_cons_self)
  obtain rfl := Option.some.inj (hbest.symm.trans hbest')
  have hv : v ∉ settled := fun hv => hnot (hsettled hv)
  refine ⟨hv, ?_⟩
  obtain ⟨halone, -⟩ := List.pairwise_cons.1 (hqueue ▸ h.distinct)
  -- a second entry of the vertex would differ in rank
  rcases List.mem_cons.1 (hqueue ▸ h.waiting v best hbest hv) with heq | hmem
  · exact (Prod.mk.inj heq).1
  · exact absurd (Nat.le_antisymm (Nat.not_lt.1 hnot) hle) (halone _ hmem rfl)

/-- The first vertex of the queue becomes settled. -/
theorem settle (h : Queued s settled level) (hqueue : s.queue = (d, v) :: queue) (hd : s.distances.get? v = some d) :
    Queued { s with queue } (v :: settled) (rank d) := by
  have hsub : ∀ z ∈ queue, z ∈ s.queue := fun z hz => hqueue ▸ List.mem_cons_of_mem _ hz
  obtain ⟨hfirst, hsorted⟩ := List.pairwise_cons.1 (hqueue ▸ h.sorted)
  obtain ⟨halone, hdistinct⟩ := List.pairwise_cons.1 (hqueue ▸ h.distinct)
  refine ⟨fun z hz => ⟨(h.far z (hsub z hz)).1, hfirst z hz⟩, fun u c hu hunsettled => ?_, fun z hz => ?_, hsorted,
    hdistinct⟩
  · obtain ⟨hne, hunsettled⟩ := not_or.1 (mt List.mem_cons.2 hunsettled)
    rcases List.mem_cons.1 (hqueue ▸ h.waiting u c hu hunsettled) with heq | hmem
    · exact absurd (Prod.mk.inj heq).2 hne
    · exact hmem
  · obtain ⟨c, hc, hle, hsettled⟩ := h.overtaken z (hsub z hz)
    refine ⟨c, hc, hle, fun hmem => ?_⟩
    rcases List.mem_cons.1 hmem with heq | hmem
    · rw [heq, hd] at hc
      obtain rfl := Option.some.inj hc
      exact Nat.lt_of_le_of_ne hle (halone z hz heq.symm)
    · exact hsettled hmem

/-- A shorter distance of a vertex that is not settled overtakes the one it has. -/
theorem improve (h : Queued s settled level) (hv : v ∉ settled) (hnext : IsDistance next) (hfar : level ≤ rank next)
    (hbetter : ∀ known, s.distances.get? v = some known → rank next < rank known) (arrivals : SortedMap Nat Nat) :
    Queued { distances := s.distances.insert v next, arrivals, queue := enqueue next v s.queue } settled level := by
  have hself : (s.distances.insert v next).get? v = some next := SortedMap.get?_insert_self ..
  refine ⟨fun z hz => ?_, fun u c hu hunsettled => ?_, fun z hz => ?_,
    enqueue_sorted hnext (fun z hz => (h.far z hz).1) h.sorted, ?_⟩
  · rcases mem_enqueue.1 hz with rfl | hz
    · exact ⟨hnext, hfar⟩
    · exact h.far z hz
  · by_cases heq : u = v
    · subst heq
      obtain rfl := Option.some.inj (hself.symm.trans hu)
      exact mem_enqueue.2 (.inl rfl)
    · rw [SortedMap.get?_insert_other _ _ heq] at hu
      exact mem_enqueue.2 (.inr (h.waiting u c hu hunsettled))
  · rcases mem_enqueue.1 hz with rfl | hz
    · exact ⟨next, hself, Nat.le_refl _, fun hmem => absurd hmem hv⟩
    · obtain ⟨c, hc, hle, hsettled⟩ := h.overtaken z hz
      by_cases heq : z.2 = v
      · rw [heq] at hc ⊢
        exact ⟨next, hself, Nat.le_trans (Nat.le_of_lt (hbetter c hc)) hle, fun hmem => absurd hmem hv⟩
      · exact ⟨c, (SortedMap.get?_insert_other _ _ heq).trans hc, hle, hsettled⟩
  · have hdistinct : ((next, v) :: s.queue).Pairwise fun a b => a.2 = b.2 → rank a.1 ≠ rank b.1 := by
      refine List.pairwise_cons.2 ⟨fun z hz heq => ?_, h.distinct⟩
      obtain ⟨c, hc, hle, -⟩ := h.overtaken z hz
      exact Nat.ne_of_lt (Nat.lt_of_lt_of_le (hbetter c ((congrArg s.distances.get? heq).trans hc)) hle)
    exact (enqueue_perm _ _ _).symm.pairwise hdistinct fun hab heq => (hab heq.symm).symm

end Queued

/-! ## Progress -/

/-- What holds while a search runs. No settled vertex is farther than `level`. The edges out of settled vertices
were followed, but for those that are pending: where such an edge leads, a distance no longer is known. -/
structure Progress (g : Graph ω) (costOf : EdgeView ω → γ) (source : Nat) (s : PathSearch γ) (settled : List Nat)
    (paths : Nat → List (Edge ω)) (pending : List (Edge ω)) (level : Nat) : Prop where
  root : s.distances.get? source = some Cost.zero
  found : ∀ v d, s.distances.get? v = some d → Found g costOf source s settled paths v d
  arrived : ∀ v id, s.arrivals.get? v = some id → ∃ d, s.distances.get? v = some d
  near : ∀ v ∈ settled, ∃ d, s.distances.get? v = some d ∧ rank d ≤ level
  queued : Queued s settled level
  followed : ∀ v ∈ settled, ∀ e ∈ g.outOf v, e ∈ pending ∨ ∃ d d', s.distances.get? v = some d ∧
    s.distances.get? e.target = some d' ∧ rank d' ≤ rank (Cost.add d (costOf (g.view e)))

/-- A search begins with its source alone. -/
theorem progress_start (g : Graph ω) (costOf : EdgeView ω → γ) (source : Nat) :
    Progress g costOf source (start source) [] (fun _ => []) [] 0 := by
  have hroot : (start source : PathSearch γ).distances.get? source = some Cost.zero := SortedMap.get?_insert_self ..
  have honly : ∀ v d, (start source : PathSearch γ).distances.get? v = some d → v = source ∧ d = Cost.zero := by
    intro v d hd
    by_cases hv : v = source
    · subst hv
      exact ⟨rfl, Option.some.inj (hd.symm.trans hroot)⟩
    · rw [start, SortedMap.get?_insert_other _ _ hv] at hd
      cases hd
  refine ⟨hroot, fun v d hd => ?_, fun v id hid => absurd hid (by simp [start]), by simp,
    ⟨?_, fun v d hd _ => ?_, ?_, ?_, ?_⟩, by simp⟩
  · obtain ⟨rfl, rfl⟩ := honly v d hd
    exact ⟨.nil _, rfl, List.nodup_singleton _, by simp, fun hne => absurd rfl hne⟩
  · simp [start, RankedCost.isDistance_zero]
  · obtain ⟨rfl, rfl⟩ := honly v d hd
    exact List.mem_singleton_self _
  · intro z hz
    obtain rfl := List.mem_singleton.1 hz
    exact ⟨_, hroot, Nat.le_refl _, by simp⟩
  · exact List.pairwise_singleton _ _
  · exact List.pairwise_singleton _ _

variable {settled : List Nat} {paths : Nat → List (Edge ω)} {pending es : List (Edge ω)} {level v : Nat}
  {d best : γ} {queue : List (γ × Nat)}

namespace Progress

/-- What holds of every edge of arrival holds along the paths found, which are made of these. -/
theorem on_path (h : Progress g costOf source s settled paths pending level) {P : Edge ω → Prop}
    (hP : ∀ e ∈ g.edges, e.source ∈ settled → s.arrivals.get? e.target = some e.id → P e)
    (hd : s.distances.get? v = some d) : ∀ e ∈ paths v, P e := by
  -- the path to the source of the last edge is shorter by that edge
  induction hn : (paths v).length generalizing v d with
  | zero => simp [List.eq_nil_of_length_eq_zero hn]
  | succ n ih =>
    have hne : v ≠ source := by
      rintro rfl
      rw [(h.found v d hd).walk.eq_nil_of_nodup (h.found v d hd).simple] at hn
      cases hn
    obtain ⟨e, he, rfl, hsource, hid, hpath⟩ := (h.found v d hd).arrival hne
    obtain ⟨c, hc, -⟩ := h.near e.source hsource
    rw [hpath, List.length_append, List.length_singleton, Nat.add_right_cancel_iff] at hn
    rw [hpath]
    simpa [or_imp, forall_and] using ⟨ih hc hn, hP e he hsource hid⟩

theorem isDistance (h : Progress g costOf source s settled paths pending level) (hvalid : g.ValidAt costOf settled)
    (hd : s.distances.get? v = some d) : IsDistance d := by
  have hpath := h.on_path (fun e he hsource _ => hvalid _ hsource e (mem_outOf.2 ⟨he, rfl⟩)) hd
  exact (h.found v d hd).cost ▸ isDistance_costAlong (by simpa using hpath)

theorem skip (h : Progress g costOf source s settled paths pending level) (hqueue : s.queue = (d, v) :: queue)
    (hbest : s.distances.get? v = some best) (hlt : rank best < rank d) :
    Progress g costOf source { s with queue } settled paths pending level :=
  { h with
    found := fun u c hu => (h.found u c hu).mono (fun _ => id) (fun _ _ => rfl) rfl
    queued := h.queued.skip hqueue hbest hlt }

/-- The nearest vertex of the queue becomes settled, and its edges are to be followed. -/
theorem settle (h : Progress g costOf source s settled paths [] level) (hqueue : s.queue = (d, v) :: queue)
    (hd : s.distances.get? v = some d) :
    Progress g costOf source { s with queue } (v :: settled) paths (g.outOf v) (rank d) := by
  refine { h with found := fun u c hu => ?_, near := ?_, queued := h.queued.settle hqueue hd, followed := ?_ }
  · exact (h.found u c hu).mono (fun _ => List.mem_cons_of_mem _) (fun _ _ => rfl) rfl
  · intro u hu
    rcases List.mem_cons.1 hu with rfl | hu
    · exact ⟨d, hd, Nat.le_refl _⟩
    · obtain ⟨c, hc, hle⟩ := h.near u hu
      exact ⟨c, hc, Nat.le_trans hle (h.queued.far (d, v) (hqueue ▸ List.mem_cons_self)).2⟩
  · intro u hu e he
    rcases List.mem_cons.1 hu with rfl | hu
    · exact .inl he
    · exact .inr ((h.followed u hu e he).resolve_left (by simp))

/-- Neither the source nor a settled vertex is ever improved, as no later distance is shorter. -/
theorem not_settled_of_better {next : γ} (h : Progress g costOf source s settled paths pending level)
    (hfar : level ≤ rank next) (hbetter : ∀ known, s.distances.get? v = some known → rank next < rank known) :
    v ∉ settled ∧ v ≠ source := by
  constructor
  · intro hsettled
    obtain ⟨known, hknown, hle⟩ := h.near v hsettled
    have hlt := hbetter known hknown
    omega
  · rintro rfl
    have hlt := hbetter Cost.zero h.root
    rw [RankedCost.rank_zero] at hlt
    omega

/-- An edge leads to a vertex by a shorter path. -/
theorem improve {e : Edge ω} {next : γ} (h : Progress g costOf source s settled paths (e :: es) level)
    (he : e ∈ g.edges) (hsource : e.source ∈ settled) (hd : s.distances.get? e.source = some d)
    (hsum : Cost.add d (costOf (g.view e)) = next) (hnext : IsDistance next) (hfar : level ≤ rank next)
    (hbetter : ∀ known, s.distances.get? e.target = some known → rank next < rank known) :
    ∃ paths', Progress g costOf source { distances := s.distances.insert e.target next
                                         arrivals := s.arrivals.insert e.target e.id
                                         queue := enqueue next e.target s.queue } settled paths' es level := by
  obtain ⟨hunsettled, hroot⟩ := h.not_settled_of_better hfar hbetter
  have hne : ∀ {u}, u ∈ settled → u ≠ e.target := fun hu heq => hunsettled (heq ▸ hu)
  have hother : ∀ {u}, u ≠ e.target → (s.distances.insert e.target next).get? u = s.distances.get? u := fun hu =>
    SortedMap.get?_insert_other _ _ hu
  have hself : (s.distances.insert e.target next).get? e.target = some next := SortedMap.get?_insert_self ..
  let paths' := fun u => if u = e.target then paths e.source ++ [e] else paths u
  have hpaths : ∀ {u}, u ≠ e.target → paths' u = paths u := fun hu => if_neg hu
  refine ⟨paths', ⟨(hother hroot.symm).trans h.root, fun u c hu => ?_, fun u id hid => ?_, fun u hu => ?_,
    h.queued.improve hunsettled hnext hfar hbetter _, fun u hu f hf => ?_⟩⟩
  · by_cases heq : u = e.target
    · subst heq
      obtain rfl := Option.some.inj (hself.symm.trans hu)
      exact hsum ▸ (h.found _ d hd).concat he hsource hunsettled (hpaths (hne hsource)) (if_pos rfl)
        (SortedMap.get?_insert_self ..)
    · refine (h.found u c ((hother heq).symm.trans hu)).mono (fun _ => id) (fun w hw => hpaths ?_)
        (SortedMap.get?_insert_other _ _ heq)
      exact hw.elim (fun hw => hw ▸ heq) hne
  · by_cases heq : u = e.target
    · exact ⟨next, heq ▸ hself⟩
    · rw [SortedMap.get?_insert_other _ _ heq] at hid
      rw [hother heq]
      exact h.arrived u id hid
  · rw [hother (hne hu)]
    exact h.near u hu
  · rw [hother (hne hu)]
    rcases h.followed u hu f hf with hmem | ⟨c, c', hc, hc', hle⟩
    · rcases List.mem_cons.1 hmem with rfl | hmem
      · obtain rfl := (mem_outOf.1 hf).2
        exact .inr ⟨d, next, hd, hself, Nat.le_of_eq (by rw [hsum])⟩
      · exact .inl hmem
    · by_cases heq : f.target = e.target
      · rw [heq] at hc' ⊢
        exact .inr ⟨c, next, hc, hself, Nat.le_trans (Nat.le_of_lt (hbetter c' hc')) hle⟩
      · exact .inr ⟨c, c', hc, (hother heq).trans hc', hle⟩

/-- Following an edge out of the vertex settled last. -/
theorem relax {e : Edge ω} (h : Progress g costOf source s settled paths (e :: es) level)
    (hvalid : g.ValidAt costOf settled) (he : e ∈ g.edges) (hsource : e.source ∈ settled)
    (hd : s.distances.get? e.source = some d) (hlevel : rank d = level) :
    (∃ paths', Progress g costOf source (s.relax d (costOf (g.view e)) e) settled paths' es level) ∧
      (s.relax d (costOf (g.view e)) e).distances.get? e.source = some d := by
  have hcost := hvalid _ hsource e (mem_outOf.2 ⟨he, rfl⟩)
  have hnext := RankedCost.isDistance_add (h.isDistance hvalid hd) hcost
  have hfar := hlevel ▸ RankedCost.le_rank_add (h.isDistance hvalid hd) hcost
  cases himproves : s.improves e.target (Cost.add d (costOf (g.view e)))
  · obtain ⟨known, hknown, hless⟩ := exists_of_not_improves himproves
    have hle := mt (RankedCost.less_iff hnext (h.isDistance hvalid hknown)).2 (Bool.eq_false_iff.1 hless)
    rw [relax_of_not_improves himproves]
    refine ⟨⟨paths, { h with followed := fun v hv f hf => ?_ }⟩, hd⟩
    rcases h.followed v hv f hf with hmem | hfollowed
    · rcases List.mem_cons.1 hmem with rfl | hmem
      · obtain rfl := (mem_outOf.1 hf).2
        exact .inr ⟨d, known, hd, hknown, Nat.not_lt.1 hle⟩
      · exact .inl hmem
    · exact .inr hfollowed
  · rw [relax_of_improves himproves]
    have hbetter : ∀ known, s.distances.get? e.target = some known →
        rank (Cost.add d (costOf (g.view e))) < rank known := fun known hknown =>
      (RankedCost.less_iff hnext (h.isDistance hvalid hknown)).1 (lt_of_improves himproves hknown)
    have hne : e.source ≠ e.target := fun heq => (h.not_settled_of_better hfar hbetter).1 (heq ▸ hsource)
    exact ⟨h.improve he hsource hd rfl hnext hfar hbetter, (SortedMap.get?_insert_other _ _ hne).trans hd⟩

/-- Following all edges out of the vertex settled last. -/
theorem relaxAll (h : Progress g costOf source s settled paths es level)
    (hvalid : g.ValidAt costOf settled) (hes : ∀ e ∈ es, e ∈ g.outOf v) (hv : v ∈ settled)
    (hd : s.distances.get? v = some d) (hlevel : rank d = level) :
    ∃ s', PathSearch.relaxAll g costOf d es s = .ok s' ∧ s'.queue.length ≤ s.queue.length + es.length ∧
      ∃ paths', Progress g costOf source s' settled paths' [] level := by
  induction es generalizing s paths with
  | nil => exact ⟨s, rfl, Nat.le_refl _, paths, h⟩
  | cons e es ih =>
    obtain ⟨hout, hes⟩ := List.forall_mem_cons.1 hes
    obtain ⟨he, rfl⟩ := mem_outOf.1 hout
    have hcost := hvalid _ hv e hout
    obtain ⟨⟨paths', h'⟩, hd'⟩ := h.relax hvalid he hv hd hlevel
    obtain ⟨s', hs', hlength, hprogress⟩ := ih h' hes hd'
    have hone := length_queue_relax (s := s) d (costOf (g.view e)) e
    refine ⟨s', ?_, ?_, hprogress⟩
    · rw [PathSearch.relaxAll, if_pos hcost, hs']
    · rw [List.length_cons]
      omega

end Progress

/-! ## Working off the queue -/

/-- How many edges go out of vertices that are not settled. -/
def unfollowed (g : Graph ω) (settled : List Nat) : Nat := g.edges.countP fun e => e.source ∉ settled

theorem unfollowed_cons (hv : v ∉ settled) :
    unfollowed g settled = (g.outOf v).length + unfollowed g (v :: settled) := by
  unfold unfollowed outOf
  induction g.edges with
  | nil => rfl
  | cons e es ih =>
    rw [List.countP_cons, List.countP_cons, List.filter_cons, ih]
    by_cases hsource : e.source = v
    · simp [hsource, hv]
      omega
    · simp [hsource]
      omega

/-- The search has come to its end, and every edge that it followed has a valid cost. -/
def Finished (g : Graph ω) (costOf : EdgeView ω → γ) (source : Nat) (s : PathSearch γ) : Prop :=
  s.queue = [] ∧ ∃ settled paths level, Progress g costOf source s settled paths [] level ∧ g.ValidAt costOf settled

/-- The queue runs empty, as every edge puts one entry into it at most; or a cost is refused. -/
theorem Progress.run {steps : Nat} :
    ∀ {s : PathSearch γ} {settled paths level}, Progress g costOf source s settled paths [] level →
      g.ValidAt costOf settled → s.queue.length + unfollowed g settled ≤ steps →
      (∃ s', PathSearch.run g costOf steps s = .ok s' ∧ Finished g costOf source s') ∨
        ∃ v p, g.IdWalk source v p ∧ ∃ e ∈ g.outOf v, Cost.isValid (costOf (g.view e)) = false ∧
          PathSearch.run g costOf steps s = .error (refusal costOf (g.view e)) := by
  induction steps with
  | zero =>
    intro s settled paths level h hvalid hsteps
    exact .inl ⟨s, rfl, List.eq_nil_of_length_eq_zero (by omega), settled, paths, level, h, hvalid⟩
  | succ steps ih =>
    intro s settled paths level h hvalid hsteps
    unfold PathSearch.run
    cases hqueue : s.queue with
    | nil => exact .inl ⟨s, rfl, hqueue, settled, paths, level, h, hvalid⟩
    | cons z queue =>
      obtain ⟨d, v⟩ := z
      rw [hqueue, List.length_cons] at hsteps
      have hmem : (d, v) ∈ s.queue := hqueue ▸ List.mem_cons_self
      obtain ⟨best, hbest, -⟩ := h.queued.overtaken _ hmem
      have hless := RankedCost.less_iff (h.isDistance hvalid hbest) (h.queued.far _ hmem).1
      simp only [hbest]
      split
      · rename_i hlt
        exact ih (h.skip hqueue hbest (hless.1 hlt)) hvalid (by simp only; omega)
      · rename_i hnot
        obtain ⟨hv, rfl⟩ := h.queued.of_not_overtaken hqueue hbest (mt hless.2 hnot)
        by_cases hbad : ∃ e ∈ g.outOf v, Cost.isValid (costOf (g.view e)) = false
        · obtain ⟨e, he, hbad, herror⟩ := relaxAll_of_refused hbad best { s with queue }
          exact .inr ⟨v, paths v, (h.found v best hbest).walk, e, he, hbad, by rw [herror]; rfl⟩
        · have hvalid' : g.ValidAt costOf (v :: settled) := List.forall_mem_cons.2
            ⟨fun e he => eq_true_of_ne_false fun hcost => hbad ⟨e, he, hcost⟩, hvalid⟩
          obtain ⟨s', hs', hlength, paths', h'⟩ :=
            (h.settle hqueue hbest).relaxAll hvalid' (fun _ => id) List.mem_cons_self hbest rfl
          rw [hs']
          refine ih h' hvalid' ?_
          rw [unfollowed_cons hv] at hsteps
          simp only at hlength
          omega

/-- With the queue empty every walk ends in a settled vertex, as the edges out of these were followed. -/
theorem Progress.settled_of_walk (h : Progress g costOf source s settled paths [] level) (hqueue : s.queue = [])
    {p : List (Edge ω)} (hp : g.IdWalk source v p) : v ∈ settled := by
  have hsettled : ∀ {u d}, s.distances.get? u = some d → u ∈ settled := by
    intro u d hd
    by_contra hnot
    have hwaiting := h.queued.waiting u d hd hnot
    rw [hqueue] at hwaiting
    cases hwaiting
  induction p using List.reverseRecOn generalizing v with
  | nil =>
    cases hp
    exact hsettled h.root
  | append_singleton p e ih =>
    obtain ⟨w, hprevious, he, rfl⟩ := hp.of_concat
    obtain ⟨-, next, -, hnext, -⟩ := (h.followed w (ih hprevious) e he).resolve_left (by simp)
    exact hsettled hnext

theorem Progress.validFrom (h : Progress g costOf source s settled paths [] level) (hqueue : s.queue = [])
    (hvalid : g.ValidAt costOf settled) : g.ValidFrom costOf source :=
  fun v _ hp => hvalid v (h.settled_of_walk hqueue hp)

/-- **With the queue empty no walk is shorter** than the distance known of the vertex where it ends. -/
theorem Progress.exists_distance (h : Progress g costOf source s settled paths [] level) (hqueue : s.queue = [])
    (hvalid : g.ValidAt costOf settled) {p : List (Edge ω)} (hp : g.IdWalk source v p) :
    ∃ d, s.distances.get? v = some d ∧ rank d ≤ rank (costAlong costOf (p.map g.view)) := by
  induction p using List.reverseRecOn generalizing v with
  | nil =>
    cases hp
    exact ⟨Cost.zero, h.root, Nat.le_refl _⟩
  | append_singleton p e ih =>
    obtain ⟨w, hprevious, he, rfl⟩ := hp.of_concat
    obtain ⟨d, hd, hle⟩ := ih hprevious
    have hsettled := h.settled_of_walk hqueue hprevious
    have hdistance := isDistance_costAlong ((h.validFrom hqueue hvalid).along hprevious)
    obtain ⟨d', next, hd', hnext, hshort⟩ := (h.followed w hsettled e he).resolve_left (by simp)
    obtain rfl := Option.some.inj (hd.symm.trans hd')
    refine ⟨next, hnext, Nat.le_trans hshort ?_⟩
    rw [List.map_append, List.map_singleton, costAlong_concat]
    exact RankedCost.rank_add_le (h.isDistance hvalid hd) hdistance (hvalid w hsettled e he) hle

end PathSearch

/-- **A search comes to its end or refuses a cost**, that of an edge out of a vertex that it found. -/
theorem finished_or_refused [RankedCost γ] (g : Graph ω) (costOf : EdgeView ω → γ) (source : Nat) :
    (∃ s, PathSearch.Finished g costOf source s ∧ g.arrivalsFrom costOf source = .ok s.arrivals) ∨
      ∃ v p, g.IdWalk source v p ∧ ∃ e ∈ g.outOf v, Cost.isValid (costOf (g.view e)) = false ∧
        g.arrivalsFrom costOf source = .error (refusal costOf (g.view e)) := by
  have hsteps : (PathSearch.start source : PathSearch γ).queue.length + PathSearch.unfollowed g [] ≤
      g.edgeCount + 1 := by
    have hle : PathSearch.unfollowed g [] ≤ g.edges.length := List.countP_le_length
    simp only [PathSearch.start, List.length_singleton, edgeCount]
    omega
  obtain ⟨s, hs, hfinished⟩ | ⟨v, p, hp, e, he, hbad, herror⟩ :=
    (PathSearch.progress_start g costOf source).run (fun v hv => absurd hv List.not_mem_nil) hsteps
  · exact .inl ⟨s, hfinished, by simp [arrivalsFrom, hs, bind, Except.bind, pure, Except.pure]⟩
  · exact .inr ⟨v, p, hp, e, he, hbad, by simp [arrivalsFrom, herror, bind, Except.bind]⟩

end Graph

end Coupling
