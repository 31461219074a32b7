/-
What becomes of edges when vertices are merged by keys that are their own keys.

An end of an edge moves when the partition of its key is merged, and then no
more: the vertex it moves to is named by its own key. So an edge whose ends have
different keys moves once for each end whose partition is merged, in the order of
the keys (`Redirected`). An edge within a partition goes when this is merged.

The edges left are therefore those there were, without the ones inside merged
partitions, each redirected (`views_mergeByKey`).
-/
import Coupling.Proofs.Graph.Merging

namespace Coupling.Graph

variable {ω : Type} {g : Graph ω} {how : Redirect ω} {p : Partition} {keyOf : String → String}

/-! ## Redirected edges -/

/-- What becomes of an edge when the partitions of some keys are merged in the order of their ranks. -/
inductive Redirected (keyOf : String → String) (how : Redirect ω) (merged : String → Prop) (rank : String → Nat) :
    EdgeView ω → EdgeView ω → Prop
  | kept {e : EdgeView ω} (hs : ¬ merged (keyOf e.source)) (ht : ¬ merged (keyOf e.target)) :
      Redirected keyOf how merged rank e e
  | into {e : EdgeView ω} (hs : ¬ merged (keyOf e.source)) (ht : merged (keyOf e.target)) (id : Nat) :
      Redirected keyOf how merged rank e ⟨id, e.source, keyOf e.target, how.into e (keyOf e.target)⟩
  | outOf {e : EdgeView ω} (hs : merged (keyOf e.source)) (ht : ¬ merged (keyOf e.target)) (id : Nat) :
      Redirected keyOf how merged rank e ⟨id, keyOf e.source, e.target, how.outOf (keyOf e.source) e⟩
  | outThenInto {e : EdgeView ω} (hs : merged (keyOf e.source)) (ht : merged (keyOf e.target))
      (hrank : rank (keyOf e.source) < rank (keyOf e.target)) (id id' : Nat) :
      Redirected keyOf how merged rank e ⟨id', keyOf e.source, keyOf e.target,
        how.into ⟨id, keyOf e.source, e.target, how.outOf (keyOf e.source) e⟩ (keyOf e.target)⟩
  | intoThenOut {e : EdgeView ω} (hs : merged (keyOf e.source)) (ht : merged (keyOf e.target))
      (hrank : rank (keyOf e.target) < rank (keyOf e.source)) (id id' : Nat) :
      Redirected keyOf how merged rank e ⟨id', keyOf e.source, keyOf e.target,
        how.outOf (keyOf e.source) ⟨id, e.source, keyOf e.target, how.into e (keyOf e.target)⟩⟩

namespace Redirected

variable {merged merged' : String → Prop} {rank : String → Nat} {e f f' : EdgeView ω}

theorem source (h : Redirected keyOf how merged rank e f) :
    merged (keyOf e.source) ∧ f.source = keyOf e.source ∨ ¬ merged (keyOf e.source) ∧ f.source = e.source := by
  cases h with
  | kept hs _ => exact .inr ⟨hs, rfl⟩
  | into hs _ => exact .inr ⟨hs, rfl⟩
  | outOf hs _ => exact .inl ⟨hs, rfl⟩
  | outThenInto hs _ => exact .inl ⟨hs, rfl⟩
  | intoThenOut hs _ => exact .inl ⟨hs, rfl⟩

theorem target (h : Redirected keyOf how merged rank e f) :
    merged (keyOf e.target) ∧ f.target = keyOf e.target ∨ ¬ merged (keyOf e.target) ∧ f.target = e.target := by
  cases h with
  | kept _ ht => exact .inr ⟨ht, rfl⟩
  | into _ ht => exact .inl ⟨ht, rfl⟩
  | outOf _ ht => exact .inr ⟨ht, rfl⟩
  | outThenInto _ ht => exact .inl ⟨ht, rfl⟩
  | intoThenOut _ ht => exact .inl ⟨ht, rfl⟩

/-- Only the keys of the ends matter. -/
theorem congr (h : Redirected keyOf how merged rank e f) (hs : merged' (keyOf e.source) ↔ merged (keyOf e.source))
    (ht : merged' (keyOf e.target) ↔ merged (keyOf e.target)) : Redirected keyOf how merged' rank e f := by
  cases h with
  | kept hs' ht' => exact .kept (mt hs.1 hs') (mt ht.1 ht')
  | into hs' ht' id => exact .into (mt hs.1 hs') (ht.2 ht') id
  | outOf hs' ht' id => exact .outOf (hs.2 hs') (mt ht.1 ht') id
  | outThenInto hs' ht' hrank id id' => exact .outThenInto (hs.2 hs') (ht.2 ht') hrank id id'
  | intoThenOut hs' ht' hrank id id' => exact .intoThenOut (hs.2 hs') (ht.2 ht') hrank id id'

/-- Where a partition comes after those merged, its members are the ends whose keys are its key. -/
theorem end_mem_members {done : List String} {u v : String} (hkey : ∀ v ∈ g.names, keyOf (keyOf v) = keyOf v)
    (hmembers : p.members = g.names.filter (keyOf · == p.key)) (hfresh : p.key ∉ done) (hv : v ∈ g.names)
    (hu : keyOf v ∈ done ∧ u = keyOf v ∨ keyOf v ∉ done ∧ u = v) : u ∈ p.members ↔ keyOf v = p.key := by
  rw [hmembers, List.mem_filter, beq_iff_eq]
  rcases hu with ⟨hdone, rfl⟩ | ⟨-, rfl⟩
  · rw [hkey v hv]
    have hne : keyOf v ≠ p.key := fun heq => hfresh (heq ▸ hdone)
    simp [hne]
  · simp [hv]

/-- **Moving a redirected edge redirects it further.** -/
theorem moved {done : List String} (hs : f.source ∈ p.members ↔ keyOf e.source = p.key)
    (ht : f.target ∈ p.members ↔ keyOf e.target = p.key) (hfresh : ∀ k ∈ done, rank k < rank p.key)
    (h : Redirected keyOf how (· ∈ done) rank e f) (hmoved : Moved how p f f') :
    Redirected keyOf how (· ∈ done ++ [p.key]) rank e f' := by
  have hnot : p.key ∉ done := fun hmem => Nat.lt_irrefl _ (hfresh p.key hmem)
  have hother : ∀ k, k ≠ p.key → (k ∈ done ++ [p.key] ↔ k ∈ done) := by
    intro k hk
    simp [hk]
  cases hmoved with
  | stayed hs' ht' =>
    rw [hs] at hs'
    rw [ht] at ht'
    exact h.congr (hother _ hs') (hother _ ht')
  | into hs' ht' id' =>
    rw [hs] at hs'
    rw [ht] at ht'
    have hlast : keyOf e.target ∈ done ++ [p.key] := by simp [ht']
    -- the target was not redirected before, as its key is only now merged
    cases h with
    | kept hsource _ =>
      have hinto : Redirected keyOf how (· ∈ done ++ [p.key]) rank e _ :=
        .into (mt (hother _ hs').1 hsource) hlast id'
      rwa [ht'] at hinto
    | outOf hsource _ id =>
      have hboth : Redirected keyOf how (· ∈ done ++ [p.key]) rank e _ :=
        .outThenInto ((hother _ hs').2 hsource) hlast (ht' ▸ hfresh _ hsource) id id'
      rwa [ht'] at hboth
    | into _ htarget => exact absurd (ht' ▸ htarget) hnot
    | outThenInto _ htarget => exact absurd (ht' ▸ htarget) hnot
    | intoThenOut _ htarget => exact absurd (ht' ▸ htarget) hnot
  | outOf hs' ht' id' =>
    rw [hs] at hs'
    rw [ht] at ht'
    have hlast : keyOf e.source ∈ done ++ [p.key] := by simp [hs']
    cases h with
    | kept _ htarget =>
      have hout : Redirected keyOf how (· ∈ done ++ [p.key]) rank e _ :=
        .outOf hlast (mt (hother _ ht').1 htarget) id'
      rwa [hs'] at hout
    | into _ htarget id =>
      have hboth : Redirected keyOf how (· ∈ done ++ [p.key]) rank e _ :=
        .intoThenOut hlast ((hother _ ht').2 htarget) (hs' ▸ hfresh _ htarget) id id'
      rwa [hs'] at hboth
    | outOf hsource _ => exact absurd (hs' ▸ hsource) hnot
    | outThenInto hsource _ => exact absurd (hs' ▸ hsource) hnot
    | intoThenOut hsource _ => exact absurd (hs' ▸ hsource) hnot

end Redirected

/-! ## Edges of all partitions -/

/-- Whether an edge does not lie within a partition whose key is merged. -/
def crosses (keyOf : String → String) (done : List String) (e : EdgeView ω) : Bool :=
  !(keyOf e.source == keyOf e.target && done.contains (keyOf e.source))

theorem crosses_append (keyOf : String → String) (done : List String) (k : String) (e : EdgeView ω) :
    crosses keyOf (done ++ [k]) e = (!(keyOf e.source == k && keyOf e.target == k) && crosses keyOf done e) := by
  unfold crosses
  by_cases hends : keyOf e.source = keyOf e.target
  · rw [hends]
    simp [beq_eq_decide, Bool.and_comm]
  · have hnot : (keyOf e.source == k && keyOf e.target == k) = false := by
      rw [Bool.and_eq_false_imp]
      intro hs
      rw [beq_iff_eq] at hs
      rw [beq_eq_false_iff_ne, ← hs]
      exact Ne.symm hends
    rw [hnot]
    simp [beq_eq_decide, hends]

/-- One more partition. -/
theorem WellFormed.redirected_mergePartition {g₀ : Graph ω} (h₀ : g₀.WellFormed) (h : g.WellFormed)
    (hkey : ∀ v ∈ g₀.names, keyOf (keyOf v) = keyOf v) {rank : String → Nat} {done : List String}
    (hmembers : p.members = g₀.names.filter (keyOf · == p.key)) (hfresh : ∀ k ∈ done, rank k < rank p.key)
    (hdone : Matched (Redirected keyOf how (· ∈ done) rank) (g₀.views.filter (crosses keyOf done)) g.views) :
    Matched (Redirected keyOf how (· ∈ done ++ [p.key]) rank) (g₀.views.filter (crosses keyOf (done ++ [p.key])))
      (g.mergePartition how p).views := by
  have hnot : p.key ∉ done := fun hmem => Nat.lt_irrefl _ (hfresh p.key hmem)
  have hp : p.members.Nodup := by
    rw [hmembers]
    exact h₀.names.filter _
  -- the members among the ends now are the ends that have the key
  have hends : Matched (fun e f => Redirected keyOf how (· ∈ done) rank e f ∧
        (f.source ∈ p.members ↔ keyOf e.source = p.key) ∧ (f.target ∈ p.members ↔ keyOf e.target = p.key))
      (g₀.views.filter (crosses keyOf done)) g.views := by
    refine hdone.imp fun e he f hef => ⟨hef, ?_, ?_⟩
    · exact Redirected.end_mem_members hkey hmembers hnot (h₀.source_mem (List.mem_of_mem_filter he)) hef.source
    · exact Redirected.end_mem_members hkey hmembers hnot (h₀.target_mem (List.mem_of_mem_filter he)) hef.target
  have houtside := hends.filter (p := fun e => !(keyOf e.source == p.key && keyOf e.target == p.key))
    (q := fun f => !(p.members.contains f.source && p.members.contains f.target)) fun e f hef => by
      simp [hef.2.1, hef.2.2, beq_eq_decide]
  rw [List.filter_filter] at houtside
  have hcrosses : (fun e : EdgeView ω => crosses keyOf (done ++ [p.key]) e) = fun e =>
      !(keyOf e.source == p.key && keyOf e.target == p.key) && crosses keyOf done e :=
    funext fun e => crosses_append keyOf done p.key e
  rw [← hcrosses] at houtside
  refine (houtside.comp (h.views_mergePartition how hp)).imp fun e _ f' hef' => ?_
  obtain ⟨f, ⟨hef, hs, ht⟩, hmoved⟩ := hef'
  exact Redirected.moved hs ht hfresh hef hmoved

/-- All partitions of a list, after those done. -/
theorem WellFormed.redirected_mergePartitions {g₀ : Graph ω} (h₀ : g₀.WellFormed)
    (hkey : ∀ v ∈ g₀.names, keyOf (keyOf v) = keyOf v) {rank : String → Nat} {ps : List Partition}
    (hmembers : ∀ p ∈ ps, p.members = g₀.names.filter (keyOf · == p.key))
    (horder : ps.Pairwise fun p q => rank p.key < rank q.key) {done : List String}
    (hlater : ∀ k ∈ done, ∀ p ∈ ps, rank k < rank p.key) (h : g.WellFormed)
    (hdone : Matched (Redirected keyOf how (· ∈ done) rank) (g₀.views.filter (crosses keyOf done)) g.views) :
    Matched (Redirected keyOf how (· ∈ done ++ ps.map (·.key)) rank)
      (g₀.views.filter (crosses keyOf (done ++ ps.map (·.key)))) (ps.foldl (·.mergePartition how ·) g).views := by
  induction ps generalizing g done with
  | nil => simpa using hdone
  | cons p ps ih =>
    obtain ⟨hfirst, horder⟩ := List.pairwise_cons.1 horder
    have hp : p.members.Nodup := by
      rw [hmembers p (by simp)]
      exact h₀.names.filter _
    have hstep := h₀.redirected_mergePartition h hkey (hmembers p (by simp)) (fun k hk => hlater k hk p (by simp)) hdone
    have hlater : ∀ k ∈ done ++ [p.key], ∀ q ∈ ps, rank k < rank q.key := by
      intro k hk q hq
      rcases List.mem_append.1 hk with hk | hk
      · exact hlater k hk q (by simp [hq])
      · rw [List.mem_singleton.1 hk]
        exact hfirst q hq
    have hrest := ih (fun q hq => hmembers q (by simp [hq])) horder hlater (h.mergePartition how hp) hstep
    rw [List.append_assoc] at hrest
    exact hrest

/-- An edge does not lie inside a partition that is merged. -/
def Lasts (g : Graph ω) (keyOf : String → String) (e : EdgeView ω) : Prop :=
  keyOf e.source ≠ keyOf e.target ∨ g.Alone keyOf (keyOf e.source)

instance (g : Graph ω) (keyOf : String → String) (e : EdgeView ω) : Decidable (g.Lasts keyOf e) :=
  inferInstanceAs (Decidable (_ ∨ _))

/-- The edges left are redirected ones, and stand for all but those inside merged partitions. -/
theorem WellFormed.views_mergeByKey (h : g.WellFormed) (hkey : ∀ v ∈ g.names, keyOf (keyOf v) = keyOf v)
    (how : Redirect ω) :
    Matched (Redirected keyOf how (¬ g.Alone keyOf ·) (g.keyRank keyOf))
      (g.views.filter (g.Lasts keyOf ·)) (g.mergeByKey keyOf how).views := by
  have hstart : Matched (Redirected keyOf how (· ∈ []) (g.keyRank keyOf)) (g.views.filter (crosses keyOf []))
      g.views := by
    have hall : g.views.filter (crosses keyOf []) = g.views := List.filter_eq_self.2 fun e _ => by simp [crosses]
    rw [hall]
    exact .of_forall₂ (List.forall₂_same.2 fun e _ => .kept (by simp) (by simp))
  have hrun := h.redirected_mergePartitions hkey (fun p hp => members_of_mem_rewritten hp)
    (g.rewritten_ordered keyOf) (by simp) h hstart
  rw [List.nil_append] at hrun
  -- of the keys there are, those merged are the ones not alone
  have hmerged : ∀ v ∈ g.names, ¬ g.Alone keyOf (keyOf v) ↔ keyOf v ∈ (g.rewritten keyOf).map (·.key) := by
    intro v hv
    rw [mem_keys_rewritten]
    simp only [List.mem_map_of_mem hv, true_and]
  have hfilter : g.views.filter (crosses keyOf ((g.rewritten keyOf).map (·.key))) =
      g.views.filter (g.Lasts keyOf ·) := by
    refine List.filter_congr fun e he => ?_
    have hsource := hmerged e.source (h.source_mem he)
    by_cases halone : g.Alone keyOf (keyOf e.source)
    · have hnot := mt hsource.2 (not_not.2 halone)
      simp only [crosses, Lasts, List.contains_eq_mem, hnot, halone]
      simp
    · simp only [crosses, Lasts, List.contains_eq_mem, hsource.1 halone, halone, beq_eq_decide]
      simp
  rw [hfilter] at hrun
  refine hrun.imp fun e he f hef => ?_
  have he := List.mem_of_mem_filter he
  exact hef.congr (hmerged _ (h.source_mem he)) (hmerged _ (h.target_mem he))

/-- The ends of the edges left are the keys of the ends. -/
theorem Redirected.ends {rank : String → Nat} {e f : EdgeView ω}
    (hef : Redirected keyOf how (¬ g.Alone keyOf ·) rank e f) (hs : e.source ∈ g.names) (ht : e.target ∈ g.names) :
    f.source = keyOf e.source ∧ f.target = keyOf e.target := by
  constructor
  · rcases hef.source with ⟨-, heq⟩ | ⟨halone, heq⟩
    · exact heq
    · exact heq.trans ((not_not.1 halone).eq hs)
  · rcases hef.target with ⟨-, heq⟩ | ⟨halone, heq⟩
    · exact heq
    · exact heq.trans ((not_not.1 halone).eq ht)

/-- The edges left between two keys. -/
theorem WellFormed.edgesBetween_mergeByKey (h : g.WellFormed) (hg : (g.mergeByKey keyOf how).WellFormed)
    (hkey : ∀ v ∈ g.names, keyOf (keyOf v) = keyOf v) (k₁ k₂ : String) :
    Matched (Redirected keyOf how (¬ g.Alone keyOf ·) (g.keyRank keyOf))
      (g.views.filter fun e => (keyOf e.source == k₁ && keyOf e.target == k₂) && decide (g.Lasts keyOf e))
      ((g.mergeByKey keyOf how).edgesBetween k₁ k₂) := by
  have hends : Matched (fun e f => Redirected keyOf how (¬ g.Alone keyOf ·) (g.keyRank keyOf) e f ∧
        f.source = keyOf e.source ∧ f.target = keyOf e.target)
      (g.views.filter (g.Lasts keyOf ·)) (g.mergeByKey keyOf how).views := by
    refine (h.views_mergeByKey hkey how).imp fun e he f hef => ⟨hef, ?_⟩
    have he := List.mem_of_mem_filter he
    exact hef.ends (h.source_mem he) (h.target_mem he)
  have hbetween := hends.filter (p := fun e => keyOf e.source == k₁ && keyOf e.target == k₂)
    (q := fun f => f.source == k₁ && f.target == k₂) fun e f hef => by rw [hef.2.1, hef.2.2]
  rw [List.filter_filter, ← hg.edgesBetween_eq] at hbetween
  exact hbetween.imp fun e _ f hef => hef.1

/-- Edges within the partition of a vertex alone are its loops, and are kept. -/
theorem Redirected.eq_of_alone {rank : String → Nat} {e f : EdgeView ω} {k : String}
    (hef : Redirected keyOf how (¬ g.Alone keyOf ·) rank e f) (halone : g.Alone keyOf k)
    (hs : keyOf e.source = k) (ht : keyOf e.target = k) : e = f := by
  have hsource : ¬ ¬ g.Alone keyOf (keyOf e.source) := not_not.2 (hs ▸ halone)
  have htarget : ¬ ¬ g.Alone keyOf (keyOf e.target) := not_not.2 (ht ▸ halone)
  cases hef with
  | kept => rfl
  | into _ h => exact absurd h htarget
  | outOf h => exact absurd h hsource
  | outThenInto h => exact absurd h hsource
  | intoThenOut h => exact absurd h hsource

/-- The edges that last inside the partition of a vertex alone are its loops. -/
theorem WellFormed.lasting_loops (h : g.WellFormed) {k : String} (halone : g.Alone keyOf k) :
    (g.views.filter fun e => (keyOf e.source == k && keyOf e.target == k) && decide (g.Lasts keyOf e)) =
      g.edgesBetween k k := by
  have hends : ∀ v ∈ g.names, keyOf v = k ↔ v = k := by
    intro v hv
    constructor
    · rintro rfl
      exact halone.eq hv
    · rintro rfl
      exact halone.mem.2
  rw [h.edgesBetween_eq]
  refine List.filter_congr fun e he => ?_
  simp only [beq_eq_decide, hends _ (h.source_mem he), hends _ (h.target_mem he)]
  by_cases hs : e.source = k
  · simp [Lasts, hs, halone.mem.2, halone]
  · simp [hs]

/-- No edge lasts inside another partition. -/
theorem lasting_inside (g : Graph ω) {k : String} (halone : ¬ g.Alone keyOf k) :
    (g.views.filter fun e => (keyOf e.source == k && keyOf e.target == k) && decide (g.Lasts keyOf e)) = [] := by
  refine List.filter_eq_nil_iff.2 fun e _ hinside => ?_
  simp only [Bool.and_eq_true, beq_iff_eq, decide_eq_true_eq] at hinside
  obtain ⟨⟨hs, ht⟩, hne | halone'⟩ := hinside
  · exact hne (hs.trans ht.symm)
  · exact halone (hs ▸ halone')

/-- **What edges are left.** Where keys are their own keys:
- between different keys there are as many edges as there were between vertices of these keys;
- a vertex alone under its own name keeps its loops, and no other key has any;
- each edge left stands for one that was not inside a merged partition. Its weight has changed once for
each end whose partition was merged, in the order of the keys. -/
theorem edges_mergeByKey (hg : g.Built) (keyOf : String → String) (hkey : ∀ v ∈ g.names, keyOf (keyOf v) = keyOf v)
    (how : Redirect ω) :
    (∀ k₁ k₂, k₁ ≠ k₂ → ((g.mergeByKey keyOf how).edgesBetween k₁ k₂).length =
        g.edgeViews.countP fun e => keyOf e.source == k₁ && keyOf e.target == k₂) ∧
      (∀ k, (g.Alone keyOf k → ((g.mergeByKey keyOf how).edgesBetween k k).Perm (g.edgesBetween k k)) ∧
        (¬ g.Alone keyOf k → (g.mergeByKey keyOf how).edgesBetween k k = [])) ∧
      Matched (Redirected keyOf how (¬ g.Alone keyOf ·) (g.keyRank keyOf))
        (g.edgeViews.filter (g.Lasts keyOf ·)) (g.mergeByKey keyOf how).edgeViews := by
  have h := hg.wellFormed
  have hbetween := h.edgesBetween_mergeByKey (hg.mergeByKey keyOf how).wellFormed hkey
  refine ⟨fun k₁ k₂ hne => ?_, fun k => ⟨fun halone => ?_, fun halone => ?_⟩, ?_⟩
  · rw [← (hbetween k₁ k₂).length_eq, g.edgeViews_perm.countP_eq, List.countP_eq_length_filter]
    refine congrArg List.length (List.filter_congr fun e _ => ?_)
    cases hends : keyOf e.source == k₁ && keyOf e.target == k₂ with
    | false => rfl
    | true =>
      simp only [Bool.and_eq_true, beq_iff_eq] at hends
      simp [Lasts, hends, hne]
  · have hsame := (hbetween k k).imp (S := (· = ·)) fun e he f hef => by
      have hends := (Bool.and_eq_true_iff.1 (List.mem_filter.1 he).2).1
      simp only [Bool.and_eq_true, beq_iff_eq] at hends
      exact hef.eq_of_alone halone hends.1 hends.2
    rw [h.lasting_loops halone] at hsame
    obtain ⟨es, hes, hperm⟩ := hsame
    rw [List.forall₂_eq_eq_eq] at hes
    exact hes ▸ hperm.symm
  · have hlength := (hbetween k k).length_eq
    rw [g.lasting_inside halone] at hlength
    exact List.length_eq_zero_iff.1 hlength.symm
  · exact (h.views_mergeByKey hkey how).of_perm (g.edgeViews_perm.filter _) (edgeViews_perm _).symm

/-- Names of two modules and one of none, with two edges from the first module to the second. -/
def modules : Graph String :=
  let g := (empty.addEdge "a.x" "b.z" "1").2
  let g := (g.addEdge "a.y" "b.z" "2").2
  let g := (g.addEdge "a.x" "a.y" "3").2
  let g := (g.addEdge "c" "c" "4").2
  let g := (g.addEdge "b.z" "a.y" "5").2
  (g.addEdge "b.z" "c" "6").2

theorem built_modules : modules.Built :=
  .addEdge (.addEdge (.addEdge (.addEdge (.addEdge (.addEdge .empty _ _ _) _ _ _) _ _ _) _ _ _) _ _ _) _ _ _

def moduleOf (name : String) : String :=
  if name ∈ ["a.x", "a.y"] then "a" else if name = "b.z" then "b" else name

/-- Weights that tell what was done to them. -/
def told : Redirect String :=
  ⟨fun e key => "(" ++ e.weight ++ " into " ++ key ++ ")", fun key e => "(" ++ e.weight ++ " out of " ++ key ++ ")"⟩

theorem edges_mergeByKey_modules :
    let after := modules.mergeByKey moduleOf told
    (after.edgesBetween "a" "b").length = 2 ∧ (after.edgesBetween "b" "a").length = 1 ∧
      after.edgesBetween "a" "a" = [] ∧ (after.edgesBetween "c" "c").length = 1 ∧ after.edgeViews.length = 5 ∧
      ∃ f ∈ after.edgeViews, f.weight = "((1 out of a) into b)" := by
  intro after
  obtain ⟨hcount, hloops, hedges⟩ := edges_mergeByKey built_modules moduleOf (by decide +kernel) told
  have hlasting := modules.edgeViews_perm.filter (modules.Lasts moduleOf ·)
  have hfirst : ∃ e ∈ modules.views.filter (modules.Lasts moduleOf ·),
      e.source = "a.x" ∧ e.target = "b.z" ∧ e.weight = "1" := by decide +kernel
  obtain ⟨e, he, hs, ht, hw⟩ := hfirst
  obtain ⟨f, hf, hef⟩ := hedges.exists_right (hlasting.mem_iff.2 he)
  have hsource : moduleOf e.source = "a" := by rw [hs]; decide +kernel
  have htarget : moduleOf e.target = "b" := by rw [ht]; decide +kernel
  have halone : ¬ modules.Alone moduleOf "a" ∧ ¬ modules.Alone moduleOf "b" := by decide +kernel
  refine ⟨?_, ?_, (hloops "a").2 halone.1, ?_, ?_, f, hf, ?_⟩
  · rw [hcount "a" "b" (by decide), modules.edgeViews_perm.countP_eq]
    decide +kernel
  · rw [hcount "b" "a" (by decide), modules.edgeViews_perm.countP_eq]
    decide +kernel
  · rw [((hloops "c").1 (by decide +kernel)).length_eq]
    decide +kernel
  · rw [← hedges.length_eq, hlasting.length_eq]
    decide +kernel
  · cases hef with
    | kept hout => exact absurd (hsource ▸ halone.1) hout
    | into hout => exact absurd (hsource ▸ halone.1) hout
    | outOf _ hin => exact absurd (htarget ▸ halone.2) hin
    | outThenInto =>
      rw [hsource, htarget]
      simp [told, hw]
    | intoThenOut _ _ hrank =>
      rw [hsource, htarget] at hrank
      exact absurd hrank (by decide +kernel)

end Coupling.Graph
