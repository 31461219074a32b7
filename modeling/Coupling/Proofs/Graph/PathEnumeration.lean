/-
Contraction lists the paths through the contracted vertices.

An edge that is left when a vertex is contracted stands for a segment: an edge that
avoided the vertex, or one into it and one out of it (`views_contract`). Where the
vertex has no loop, no segment begins another, and every path past the vertex falls
into segments. So the paths before and after are the same, each edge spelled out as
its segment (`Spells.listsPaths`), and when no way leads from a contracted vertex back
to it, each edge left in the end stands for one path (`edgesBetween_contractVertices`).
-/
import Coupling.Proofs.Graph.ContractedEdges

open Relation (TransGen)

namespace Coupling.Graph

variable {ω : Type} {g : Graph ω} {merge : EdgeView ω → EdgeView ω → ω} {inner : String → Prop}

/-! ## Paths and shortcuts -/

/-- A path of one edge or more, and all names between its ends are `inner`. -/
inductive Passes (g : Graph ω) (inner : String → Prop) : String → String → List (EdgeView ω) → Prop
  | last {x y : String} {e : EdgeView ω} (he : e ∈ g.outEdges x) (hy : e.target = y) : Passes g inner x y [e]
  | step {x y : String} {e : EdgeView ω} {p : List (EdgeView ω)} (he : e ∈ g.outEdges x) (hinner : inner e.target)
      (hp : Passes g inner e.target y p) : Passes g inner x y (e :: p)

/-- An edge that stands for a path: the path is the edge, or it was put together from two parts. -/
inductive Shortcut (merge : EdgeView ω → EdgeView ω → ω) : List (EdgeView ω) → EdgeView ω → Prop
  | edge (e : EdgeView ω) : Shortcut merge [e] e
  | joined {p q : List (EdgeView ω)} {i o : EdgeView ω} (hp : Shortcut merge p i) (hq : Shortcut merge q o) (id : Nat) :
      Shortcut merge (p ++ q) ⟨id, i.source, o.target, merge i o⟩

namespace Passes

variable {x y z : String} {p q : List (EdgeView ω)}

theorem append (hp : g.Passes inner x y p) (hy : inner y) (hq : g.Passes inner y z q) :
    g.Passes inner x z (p ++ q) := by
  induction hp with
  | last he hend => exact .step he (hend ▸ hy) (hend ▸ hq)
  | step he hinner _ ih => exact .step he hinner (ih hy hq)

theorem mono (h : g.WellFormed) {inner' : String → Prop} (himp : ∀ n ∈ g.names, inner n → inner' n)
    (hp : g.Passes inner x y p) : g.Passes inner' x y p := by
  induction hp with
  | last he hy => exact .last he hy
  | step he hinner _ ih => exact .step he (himp _ (h.target_mem (h.mem_outEdges.1 he).1) hinner) ih

theorem mem_views (h : g.WellFormed) (hp : g.Passes inner x y p) : ∀ e ∈ p, e ∈ g.views := by
  induction hp with
  | last he _ => simpa using (h.mem_outEdges.1 he).1
  | step he _ _ ih => simpa using ⟨(h.mem_outEdges.1 he).1, ih⟩

end Passes

namespace Shortcut

variable {p : List (EdgeView ω)} {e : EdgeView ω}

/-- A shortcut for shortcuts is one for the paths they stand for. -/
theorem flatMap {s : EdgeView ω → List (EdgeView ω)} (h : Shortcut merge p e) (hs : ∀ f ∈ p, Shortcut merge (s f) f) :
    Shortcut merge (p.flatMap s) e := by
  induction h with
  | edge e => simpa using hs e (by simp)
  | joined _ _ id ihp ihq =>
    rw [List.flatMap_append]
    exact .joined (ihp fun f hf => hs f (by simp [hf])) (ihq fun f hf => hs f (by simp [hf])) id

/-- A shortcut begins and ends where its path does. -/
theorem ends (h : Shortcut merge p e) :
    ∃ first ∈ p.head?, ∃ last ∈ p.getLast?, e.source = first.source ∧ e.target = last.target := by
  induction h with
  | edge e => exact ⟨e, rfl, e, rfl, rfl, rfl⟩
  | joined _ _ id ihp ihq =>
    obtain ⟨first, hfirst, -, -, hs, -⟩ := ihp
    obtain ⟨-, -, last, hlast, -, ht⟩ := ihq
    rw [Option.mem_def] at hfirst hlast
    refine ⟨first, ?_, last, ?_, hs, ht⟩
    · rw [List.head?_append, hfirst]
      rfl
    · rw [List.getLast?_append, hlast]
      rfl

end Shortcut

/-! ## One vertex -/

/-- The edges that avoid a name, and the pairs of edges that lead past it. -/
def segments (g : Graph ω) (name : String) : List (List (EdgeView ω)) :=
  ((g.views.filter fun e => e.source != name && e.target != name).map fun e => [e]) ++
    (g.views.filter fun e => e.target == name && e.source != name).flatMap fun i =>
      (g.views.filter fun e => e.source == name && e.target != name).map fun o => [i, o]

theorem WellFormed.segments_eq (h : g.WellFormed) (name : String) :
    g.segments name = ((g.views.filter fun e => e.source != name && e.target != name).map fun e => [e]) ++
      (g.past name).map fun z => [z.1, z.2] := by
  have hinto : (g.views.filter fun e => e.target == name && e.source != name) =
      (g.inEdges name).filter (·.source != name) := by
    rw [h.inEdges_eq, List.filter_filter]
    exact List.filter_congr fun e _ => Bool.and_comm _ _
  have hout : (g.views.filter fun e => e.source == name && e.target != name) =
      (g.outEdges name).filter (·.target != name) := by
    rw [h.outEdges_eq, List.filter_filter]
    exact List.filter_congr fun e _ => Bool.and_comm _ _
  rw [segments, past, hinto, hout, List.map_flatMap]
  simp only [List.map_map, Function.comp_def]

/-- **What is left when a vertex is contracted**: each edge stands for a segment, and each segment has its
edge. -/
theorem WellFormed.views_contract (h : g.WellFormed) (merge : EdgeView ω → EdgeView ω → ω) {v : Nat} {name : String}
    (hv : ⟨v, name⟩ ∈ g.vertices) : Matched (Shortcut merge) (g.segments name) (g.contract merge v).views := by
  obtain ⟨fresh, hviews, hfresh, -⟩ := h.views_contract_eq merge hv
  have hold : Matched (Shortcut merge) ((g.views.filter fun e => e.source != name && e.target != name).map fun e => [e])
      (g.views.filter fun e => e.source != name && e.target != name) :=
    .of_forall₂ (List.forall₂_map_left_iff.2 (List.forall₂_same.2 fun e _ => .edge e))
  have hnew : Matched (Shortcut merge) ((g.past name).map fun z => [z.1, z.2]) (fresh.map id) := by
    refine hfresh.map fun z _ e _ hcontent => ?_
    obtain ⟨id, source, target, weight⟩ := e
    simp only [EdgeView.content, Prod.mk.injEq] at hcontent
    obtain ⟨rfl, rfl, rfl⟩ := hcontent
    exact .joined (.edge z.1) (.edge z.2) id
  rw [List.map_id] at hnew
  rw [h.segments_eq, hviews]
  exact (hold.append hnew).of_perm (.refl _) List.perm_append_comm

/-! ## Paths past one vertex -/

/-- An edge that avoids a name, or a pair of edges that leads past it. -/
inductive Segment (g : Graph ω) (name : String) : List (EdgeView ω) → Prop
  | avoids {e : EdgeView ω} (he : e ∈ g.views) (hs : e.source ≠ name) (ht : e.target ≠ name) : Segment g name [e]
  | past {i o : EdgeView ω} (hi : i ∈ g.views) (his : i.source ≠ name) (hit : i.target = name) (ho : o ∈ g.views)
      (hos : o.source = name) (hot : o.target ≠ name) : Segment g name [i, o]

theorem mem_segments {name : String} {s : List (EdgeView ω)} : s ∈ g.segments name ↔ g.Segment name s := by
  simp only [segments, List.mem_append, List.mem_map, List.mem_flatMap, List.mem_filter, Bool.and_eq_true, beq_iff_eq,
    bne_iff_ne]
  constructor
  · rintro (⟨e, ⟨he, hs, ht⟩, rfl⟩ | ⟨i, ⟨hi, hit, his⟩, o, ⟨ho, hos, hot⟩, rfl⟩)
    · exact .avoids he hs ht
    · exact .past hi his hit ho hos hot
  · rintro (⟨he, hs, ht⟩ | ⟨hi, his, hit, ho, hos, hot⟩)
    · exact .inl ⟨_, ⟨he, hs, ht⟩, rfl⟩
    · exact .inr ⟨_, ⟨hi, hit, his⟩, _, ⟨ho, hos, hot⟩, rfl⟩

theorem WellFormed.views_nodup (h : g.WellFormed) : g.views.Nodup := by
  refine List.Nodup.of_map EdgeView.id ?_
  unfold views
  rw [List.map_map]
  exact h.edgeIds.nodup.of_append_left

theorem WellFormed.segments_nodup (h : g.WellFormed) (name : String) : (g.segments name).Nodup := by
  have hviews : ∀ p : EdgeView ω → Bool, (g.views.filter p).Nodup := fun p => h.views_nodup.filter p
  refine List.nodup_append.2 ⟨?_, ?_, ?_⟩
  · exact (hviews _).map fun a b hab => List.singleton_inj.1 hab
  · refine List.nodup_flatMap.2 ⟨fun i _ => (hviews _).map fun a b hab => ?_, (hviews _).imp fun hne => ?_⟩
    · simpa using hab
    · refine List.disjoint_left.2 ?_
      simp only [List.mem_map, not_exists, not_and]
      rintro _ ⟨o, -, rfl⟩ o' - heq
      exact hne (List.cons.inj heq).1.symm
  · simp only [List.mem_map, List.mem_flatMap]
    rintro _ ⟨e, -, rfl⟩ _ ⟨i, -, o, -, rfl⟩ heq
    simp at heq

/-- No segment begins another. -/
theorem Segment.append_inj {name : String} {s t p q : List (EdgeView ω)} (hs : g.Segment name s) (ht : g.Segment name t)
    (heq : s ++ p = t ++ q) : s = t ∧ p = q := by
  cases hs with
  | avoids _ _ hend =>
    cases ht with
    | avoids => simpa using heq
    | past _ _ hit =>
      simp only [List.cons_append, List.cons.injEq] at heq
      exact absurd (heq.1 ▸ hit) hend
  | past _ _ hit =>
    cases ht with
    | avoids _ _ hend =>
      simp only [List.cons_append, List.cons.injEq] at heq
      exact absurd (heq.1 ▸ hit) hend
    | past => simpa [and_assoc] using heq

/-- Each edge of a graph spelled out as a segment of another, and each segment once. -/
structure Spells (merge : EdgeView ω → EdgeView ω → ω) (g g' : Graph ω) (name : String)
    (spell : EdgeView ω → List (EdgeView ω)) : Prop where
  perm : (g'.views.map spell).Perm (g.segments name)
  shortcut : ∀ f ∈ g'.views, Shortcut merge (spell f) f

theorem WellFormed.exists_spells (h : g.WellFormed) (merge : EdgeView ω → EdgeView ω → ω) {v : Nat} {name : String}
    (hv : ⟨v, name⟩ ∈ g.vertices) : ∃ spell, Spells merge g (g.contract merge v) name spell := by
  obtain ⟨spell, hperm, hshort⟩ :=
    (h.views_contract merge hv).exists_fun (h.contract merge (id_mem_ids hv)).views_nodup
  exact ⟨spell, hperm, hshort⟩

namespace Spells

variable {g' : Graph ω} {name : String} {spell : EdgeView ω → List (EdgeView ω)} {f : EdgeView ω}

theorem segment (hspell : Spells merge g g' name spell) (hf : f ∈ g'.views) : g.Segment name (spell f) :=
  mem_segments.1 (hspell.perm.mem_iff.1 (List.mem_map_of_mem hf))

theorem exists_edge (hspell : Spells merge g g' name spell) (h' : g'.WellFormed) {s : List (EdgeView ω)}
    (hs : g.Segment name s) (first last : EdgeView ω) (hfirst : s.head? = some first) (hlast : s.getLast? = some last) :
    ∃ f ∈ g'.outEdges first.source, f.target = last.target ∧ spell f = s := by
  obtain ⟨f, hf, rfl⟩ := List.mem_map.1 (hspell.perm.mem_iff.2 (mem_segments.2 hs))
  obtain ⟨first', hfirst', last', hlast', hsource, htarget⟩ := (hspell.shortcut f hf).ends
  obtain rfl := Option.some.inj (hfirst.symm.trans hfirst')
  obtain rfl := Option.some.inj (hlast.symm.trans hlast')
  exact ⟨f, h'.mem_outEdges.2 ⟨hf, hsource⟩, htarget, rfl⟩

theorem spell_inj (hspell : Spells merge g g' name spell) (h : g.WellFormed) {f' : EdgeView ω} (hf : f ∈ g'.views)
    (hf' : f' ∈ g'.views) (heq : spell f = spell f') : f = f' :=
  List.inj_on_of_nodup_map (hspell.perm.nodup_iff.2 (h.segments_nodup name)) hf hf' heq

/-- Edges that follow each other can be told from what they spell. -/
theorem flatMap_inj (hspell : Spells merge g g' name spell) (h : g.WellFormed) {p q : List (EdgeView ω)}
    (hp : ∀ f ∈ p, f ∈ g'.views) (hq : ∀ f ∈ q, f ∈ g'.views) (heq : p.flatMap spell = q.flatMap spell) : p = q := by
  have hne : ∀ {f r}, f ∈ g'.views → spell f ++ r ≠ [] := fun {f r} hf => by
    have hsegment := hspell.segment hf
    generalize spell f = s at hsegment ⊢
    cases hsegment <;> simp
  induction p generalizing q with
  | nil =>
    cases q with
    | nil => rfl
    | cons f q => exact absurd heq.symm (hne (hq f (by simp)))
  | cons e p ih =>
    cases q with
    | nil => exact absurd heq (hne (hp e (by simp)))
    | cons f q =>
      rw [List.flatMap_cons, List.flatMap_cons] at heq
      have he := hp e (by simp)
      have hf := hq f (by simp)
      obtain ⟨hfirst, hrest⟩ := (hspell.segment he).append_inj (hspell.segment hf) heq
      rw [hspell.spell_inj h he hf hfirst,
        ih (fun e he => hp e (by simp [he])) (fun f hf => hq f (by simp [hf])) hrest]

/-- What an edge spells is a path between its ends. -/
theorem passes_edge (hspell : Spells merge g g' name spell) (h : g.WellFormed) (hname : inner name)
    (hf : f ∈ g'.views) : g.Passes inner f.source f.target (spell f) := by
  obtain ⟨first, hfirst, last, hlast, hsource, htarget⟩ := (hspell.shortcut f hf).ends
  have hsegment := hspell.segment hf
  generalize spell f = s at hsegment hfirst hlast ⊢
  cases hsegment with
  | avoids he =>
    obtain rfl := Option.some.inj hfirst
    obtain rfl := Option.some.inj hlast
    exact .last (h.mem_outEdges.2 ⟨he, hsource.symm⟩) htarget.symm
  | past hi _ hit ho hos =>
    obtain rfl := Option.some.inj hfirst
    obtain rfl := Option.some.inj hlast
    exact .step (h.mem_outEdges.2 ⟨hi, hsource.symm⟩) (hit ▸ hname)
      (.last (h.mem_outEdges.2 ⟨ho, hos.trans hit.symm⟩) htarget.symm)

/-- What a path spells is a path between its ends. -/
theorem passes (hspell : Spells merge g g' name spell) (h : g.WellFormed) (h' : g'.WellFormed) {ns : List String}
    {x y : String} {p : List (EdgeView ω)} (hp : g'.Passes (· ∈ ns) x y p) :
    g.Passes (· ∈ name :: ns) x y (p.flatMap spell) := by
  induction hp with
  | last he hy =>
    obtain ⟨hf, rfl⟩ := h'.mem_outEdges.1 he
    subst hy
    have hpasses : g.Passes (· ∈ name :: ns) _ _ _ := hspell.passes_edge h (by simp) hf
    simpa using hpasses
  | step he hinner _ ih =>
    obtain ⟨hf, rfl⟩ := h'.mem_outEdges.1 he
    exact (hspell.passes_edge h (by simp) hf).append (List.mem_cons_of_mem _ hinner) ih

/-- Where the name has no loop, every path past it is spelled. -/
theorem exists_passes (hspell : Spells merge g g' name spell) (h : g.WellFormed) (h' : g'.WellFormed)
    (hloop : ¬ g.Leads name name) {ns : List String} {x y : String} {p : List (EdgeView ω)}
    (hp : g.Passes (· ∈ name :: ns) x y p) (hx : x ≠ name) (hy : y ≠ name) :
    ∃ p', g'.Passes (· ∈ ns) x y p' ∧ p'.flatMap spell = p := by
  -- a path that begins at the name goes on from an edge into it
  suffices hgo : (x ≠ name → ∃ p', g'.Passes (· ∈ ns) x y p' ∧ p'.flatMap spell = p) ∧
      (x = name → ∀ i ∈ g.views, i.source ≠ name → i.target = name →
        ∃ p', g'.Passes (· ∈ ns) i.source y p' ∧ p'.flatMap spell = i :: p) from hgo.1 hx
  clear hx
  induction hp with
  | @last x y e he hend =>
    obtain ⟨hmem, rfl⟩ := h.mem_outEdges.1 he
    subst hend
    constructor
    · intro hx
      obtain ⟨f, hf, ht, hspelled⟩ := hspell.exists_edge h' (.avoids hmem hx hy) e e rfl rfl
      exact ⟨[f], .last hf ht, by simp [hspelled]⟩
    · intro hx i hi his hit
      obtain ⟨f, hf, ht, hspelled⟩ := hspell.exists_edge h' (.past hi his hit hmem hx hy) i e rfl rfl
      exact ⟨[f], .last hf ht, by simp [hspelled]⟩
  | @step x y e p he hinner _ ih =>
    obtain ⟨ihother, ihname⟩ := ih hy
    obtain ⟨hmem, rfl⟩ := h.mem_outEdges.1 he
    constructor
    · intro hx
      by_cases ht : e.target = name
      · exact ihname ht e hmem hx ht
      · obtain ⟨f, hf, hft, hspelled⟩ := hspell.exists_edge h' (.avoids hmem hx ht) e e rfl rfl
        obtain ⟨p', hp', hrest⟩ := ihother ht
        rw [← hft] at hp'
        refine ⟨f :: p', .step hf ?_ hp', by simp [hspelled, hrest]⟩
        rw [hft]
        exact List.mem_of_ne_of_mem ht hinner
    · intro hx i hi his hit
      have ht : e.target ≠ name := fun ht => hloop (h.leads_iff_view.2 ⟨e, hmem, hx, ht⟩)
      obtain ⟨f, hf, hft, hspelled⟩ := hspell.exists_edge h' (.past hi his hit hmem hx ht) i e rfl rfl
      obtain ⟨p', hp', hrest⟩ := ihother ht
      rw [← hft] at hp'
      refine ⟨f :: p', .step hf ?_ hp', by simp [hspelled, hrest]⟩
      rw [hft]
      exact List.mem_of_ne_of_mem ht hinner

end Spells

/-! ## Paths past vertices one after the other -/

/-- No way along `inner` names leads back to where it began. -/
def Acyclic (g : Graph ω) (inner : String → Prop) : Prop :=
  ∀ n, ¬ TransGen (fun a b => g.Leads a b ∧ inner a ∧ inner b) n n

theorem Acyclic.not_leads (h : g.Acyclic inner) {n : String} (hn : inner n) : ¬ g.Leads n n :=
  fun hloop => h n (.single ⟨hloop, hn, hn⟩)

theorem Acyclic.mono {inner' : String → Prop} (h : g.Acyclic inner) (himp : ∀ n, inner' n → inner n) :
    g.Acyclic inner' :=
  fun n hway => h n (hway.lift id fun _ _ hab => ⟨hab.1, himp _ hab.2.1, himp _ hab.2.2⟩)

/-- Ways along which a rank grows do not lead back. -/
theorem WellFormed.acyclic_of_rank (h : g.WellFormed) (rank : String → Nat)
    (hrank : ∀ e ∈ g.views, inner e.source → inner e.target → rank e.source < rank e.target) : g.Acyclic inner := by
  intro n hway
  have hgrows : TransGen (· < ·) (rank n) (rank n) := by
    refine hway.lift rank fun a b hab => ?_
    obtain ⟨hab, ha, hb⟩ := hab
    obtain ⟨e, he, rfl, rfl⟩ := h.leads_iff_view.1 hab
    exact hrank e he ha hb
  rw [Relation.transGen_eq_self] at hgrows
  exact Nat.lt_irrefl _ hgrows

/-- Contracting one of the names leaves no way back along the others. -/
theorem WellFormed.acyclic_contract (h : g.WellFormed) {v : Nat} {name : String} (hv : ⟨v, name⟩ ∈ g.vertices)
    {ns : List String} (hacyclic : g.Acyclic (· ∈ name :: ns)) : (g.contract merge v).Acyclic (· ∈ ns) := by
  intro n hway
  refine hacyclic n (hway.lift' id fun a b hab => ?_)
  obtain ⟨hab, ha, hb⟩ := hab
  have ha := List.mem_cons_of_mem name ha
  have hb := List.mem_cons_of_mem name hb
  have hname : name ∈ name :: ns := List.mem_cons_self
  obtain ⟨-, -, hab | ⟨hin, hout⟩⟩ := (h.leads_contract hv).1 hab
  · exact .single ⟨hab, ha, hb⟩
  · exact .tail (.single ⟨hin, ha, hname⟩) ⟨hout, hname, hb⟩

/-- The paths between two names, each once. -/
structure ListsPaths (g : Graph ω) (inner : String → Prop) (x y : String) (ps : List (List (EdgeView ω))) : Prop where
  nodup : ps.Nodup
  mem_iff : ∀ p, p ∈ ps ↔ g.Passes inner x y p

/-- With no names to pass, paths are edges. -/
theorem WellFormed.listsPaths_edges (h : g.WellFormed) (x y : String) :
    g.ListsPaths (· ∈ []) x y ((g.edgesBetween x y).map fun e => [e]) := by
  have hmem : ∀ e, e ∈ g.edgesBetween x y ↔ e ∈ g.outEdges x ∧ e.target = y := fun e => by
    unfold edgesBetween
    rw [List.mem_filter, beq_iff_eq]
  constructor
  · rw [h.edgesBetween_eq]
    exact (h.views_nodup.filter _).map fun a b hab => List.singleton_inj.1 hab
  · intro p
    rw [List.mem_map]
    constructor
    · rintro ⟨e, he, rfl⟩
      exact .last ((hmem e).1 he).1 ((hmem e).1 he).2
    · rintro (⟨he, hy⟩ | ⟨-, hinner, -⟩)
      · exact ⟨_, (hmem _).2 ⟨he, hy⟩, rfl⟩
      · exact absurd hinner List.not_mem_nil

/-- The paths past one more vertex are spelled by those around it. -/
theorem Spells.listsPaths {g' : Graph ω} {name : String} {spell : EdgeView ω → List (EdgeView ω)}
    (hspell : Spells merge g g' name spell) (h : g.WellFormed) (h' : g'.WellFormed) (hloop : ¬ g.Leads name name)
    {ns : List String} {x y : String} (hx : x ≠ name) (hy : y ≠ name) {ps : List (List (EdgeView ω))}
    (hps : g'.ListsPaths (· ∈ ns) x y ps) : g.ListsPaths (· ∈ name :: ns) x y (ps.map (·.flatMap spell)) := by
  constructor
  · refine hps.nodup.map_on fun p hp q hq heq => ?_
    exact hspell.flatMap_inj h (((hps.mem_iff p).1 hp).mem_views h') (((hps.mem_iff q).1 hq).mem_views h') heq
  · intro p
    rw [List.mem_map]
    constructor
    · rintro ⟨p', hp', rfl⟩
      exact hspell.passes h h' ((hps.mem_iff p').1 hp')
    · intro hp
      obtain ⟨p', hp', rfl⟩ := hspell.exists_passes h h' hloop hp hx hy
      exact ⟨p', (hps.mem_iff p').2 hp', rfl⟩

/-- Contracting distinct names of a graph leaves an edge for each path past them. -/
theorem WellFormed.paths_contractNames (h : g.WellFormed) (merge : EdgeView ω → EdgeView ω → ω) {ns : List String}
    (hnodup : ns.Nodup) (hns : ∀ n ∈ ns, n ∈ g.names) (hacyclic : g.Acyclic (· ∈ ns)) {x y : String} (hx : x ∉ ns)
    (hy : y ∉ ns) :
    ∃ ps, g.ListsPaths (· ∈ ns) x y ps ∧
      Matched (Shortcut merge) ps ((Graph.contractNames merge ns g).2.edgesBetween x y) := by
  induction ns generalizing g with
  | nil =>
    refine ⟨_, h.listsPaths_edges x y, ?_⟩
    exact .of_forall₂ (List.forall₂_map_left_iff.2 (List.forall₂_same.2 fun e _ => .edge e))
  | cons n ns ih =>
    obtain ⟨⟨v, name⟩, hv, rfl⟩ := mem_names.1 (hns n (by simp))
    have hid := h.idOf?_eq_some_iff.2 hv
    have h' := h.contract merge (id_mem_ids hv)
    have hmem := h.mem_names_contract merge hv hnodup hns
    simp only [List.mem_cons, not_or] at hx hy
    obtain ⟨ps, hps, hedges⟩ := ih h' hnodup.of_cons hmem (h.acyclic_contract hv hacyclic) hx.2 hy.2
    obtain ⟨spell, hspell⟩ := h.exists_spells merge hv
    have hloop := hacyclic.not_leads (List.mem_cons_self (a := name))
    refine ⟨_, hspell.listsPaths h h' hloop hx.1 hy.1 hps, ?_⟩
    simp only [Graph.contractNames, hid]
    have hspelled := hedges.map (S := Shortcut merge) (a := (·.flatMap spell)) (b := id) fun p hp e _ hpe =>
      hpe.flatMap fun f hf => hspell.shortcut f (((hps.mem_iff p).1 hp).mem_views h' f hf)
    rwa [List.map_id] at hspelled

/-! ## Weights along paths -/

/-- The weights along a path, put together from its beginning. -/
def weightAlong (op : ω → ω → ω) : List (EdgeView ω) → Option ω
  | [] => none
  | e :: p => some ((p.map (·.weight)).foldl op e.weight)

theorem weightAlong_append {op : ω → ω → ω} (hassoc : ∀ a b c, op (op a b) c = op a (op b c)) {p q : List (EdgeView ω)}
    {a b : ω} (hp : weightAlong op p = some a) (hq : weightAlong op q = some b) :
    weightAlong op (p ++ q) = some (op a b) := by
  have : Std.Associative op := ⟨hassoc⟩
  cases p with
  | nil => cases hp
  | cons e p =>
    cases q with
    | nil => cases hq
    | cons f q =>
      obtain rfl := Option.some.inj hp
      obtain rfl := Option.some.inj hq
      simp only [List.cons_append, weightAlong, List.map_append, List.map_cons, List.foldl_append, List.foldl_cons,
        List.foldl_assoc]

/-- Where weights are put together by an associative operation, a shortcut weighs what its path does. -/
theorem Shortcut.weightAlong_eq {op : ω → ω → ω} (hmerge : ∀ i o, merge i o = op i.weight o.weight)
    (hassoc : ∀ a b c, op (op a b) c = op a (op b c)) {p : List (EdgeView ω)} {e : EdgeView ω}
    (h : Shortcut merge p e) : weightAlong op p = some e.weight := by
  induction h with
  | edge e => rfl
  | joined _ _ id ihp ihq => rw [weightAlong_append hassoc ihp ihq, hmerge]

/-! ## All chosen vertices -/

/-- **Contraction lists paths.** Where no way along chosen names leads back to where it began, the edges left
between two names stand one to one for the paths between them that pass chosen names only. Their weights are
those along the paths, if weights are put together by an associative operation. -/
theorem edgesBetween_contractVertices (hg : g.Built) (chosen : String → Bool) (merge : EdgeView ω → EdgeView ω → ω)
    (hacyclic : g.Acyclic (chosen · = true)) :
    ∀ x ∈ (g.contractVertices chosen merge).2.names, ∀ y ∈ (g.contractVertices chosen merge).2.names,
      ∃ ps : List (List (EdgeView ω)), (ps.Nodup ∧ ∀ p, p ∈ ps ↔ g.Passes (chosen · = true) x y p) ∧
        Matched (Shortcut merge) ps ((g.contractVertices chosen merge).2.edgesBetween x y) ∧
        ∀ op : ω → ω → ω, (∀ i o, merge i o = op i.weight o.weight) → (∀ a b c, op (op a b) c = op a (op b c)) →
          (ps.map (weightAlong op)).Perm
            (((g.contractVertices chosen merge).2.edgesBetween x y).map fun e => some e.weight) := by
  have h := hg.wellFormed
  have hnodup := h.names.filter chosen
  have hsub : ∀ n ∈ g.names.filter chosen, n ∈ g.names := fun n hn => List.mem_of_mem_filter hn
  have hchosen : ∀ n ∈ g.names, n ∈ g.names.filter chosen ↔ chosen n = true := fun n hn => by
    rw [List.mem_filter, and_iff_right hn]
  have hleft : ∀ z ∈ (g.contractVertices chosen merge).2.names, z ∉ g.names.filter chosen := by
    intro z hz hmem
    rw [h.names_contractVertices, List.mem_filter, (List.mem_filter.1 hmem).2] at hz
    exact absurd hz.2 (by simp)
  intro x hx y hy
  have hacyclic : g.Acyclic (· ∈ g.names.filter chosen) := hacyclic.mono fun n hn => (List.mem_filter.1 hn).2
  obtain ⟨ps, hps, hedges⟩ := h.paths_contractNames merge hnodup hsub hacyclic (hleft x hx) (hleft y hy)
  refine ⟨ps, ⟨hps.nodup, fun p => ?_⟩, hedges, fun op hmerge hassoc => ?_⟩
  · rw [hps.mem_iff]
    exact ⟨fun hp => hp.mono h fun n hn => (hchosen n hn).1, fun hp => hp.mono h fun n hn => (hchosen n hn).2⟩
  · have hweights := hedges.map (S := (· = ·)) (a := weightAlong op) (b := fun e => some e.weight)
      fun p _ e _ hpe => hpe.weightAlong_eq hmerge hassoc
    obtain ⟨ws, hws, hperm⟩ := hweights
    rw [List.forall₂_eq_eq_eq] at hws
    exact hws ▸ hperm

/-- Three names in the middle, reached by two edges, with a way past one of them. -/
def sluices : Graph String :=
  let g := (empty.addEdge "In" "A" "i").2
  let g := (g.addEdge "In" "A" "j").2
  let g := (g.addEdge "A" "B" "k").2
  let g := (g.addEdge "A" "C" "l").2
  let g := (g.addEdge "B" "C" "m").2
  let g := (g.addEdge "B" "Out" "n").2
  (g.addEdge "C" "Out" "o").2

theorem built_sluices : sluices.Built :=
  .addEdge (.addEdge (.addEdge (.addEdge (.addEdge (.addEdge (.addEdge .empty _ _ _) _ _ _) _ _ _) _ _ _) _ _ _)
    _ _ _) _ _ _

/-- Whether a name lies between the ends of `sluices`. -/
def isSluice (name : String) : Bool := name != "In" && name != "Out"

theorem acyclic_sluices : sluices.Acyclic (isSluice · = true) :=
  built_sluices.wellFormed.acyclic_of_rank (fun n => if n = "A" then 0 else if n = "B" then 1 else 2)
    (by decide +kernel)

theorem edgesBetween_contractVertices_sluices :
    ∃ ps : List (List (EdgeView String)), (∀ p, p ∈ ps ↔ sluices.Passes (isSluice · = true) "In" "Out" p) ∧
      ps.Nodup ∧ ps.length = 6 ∧ (ps.map (weightAlong (· ++ ·))).Perm
        [some "ikn", some "ilo", some "ikmo", some "jkn", some "jlo", some "jkmo"] := by
  have hleft : (sluices.contractVertices isSluice fun i o => i.weight ++ o.weight).2.names = ["In", "Out"] := by
    decide +kernel
  obtain ⟨ps, ⟨hnodup, hmem⟩, hedges, hweights⟩ := edgesBetween_contractVertices built_sluices isSluice
    (fun i o => i.weight ++ o.weight) acyclic_sluices "In" (by simp [hleft]) "Out" (by simp [hleft])
  refine ⟨ps, hmem, hnodup, hedges.length_eq.trans (by decide +kernel), ?_⟩
  refine (hweights (· ++ ·) (fun i o => rfl) fun a b c => String.append_assoc).trans ?_
  decide +kernel

end Coupling.Graph
