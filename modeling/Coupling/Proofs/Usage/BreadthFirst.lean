/-
Usages come breadth first.

`ReachIn` counts the steps in which a reference is reached, and `IsDistance` is the
least number of them. A level of the search holds the references of one distance in
the order of their keys, and one level keeps that (`InOrder.step`). So the search
looks into the references reached in the order of their distances and, where these
are the same, of their keys (`exists_order`), and of the relations found on the way
it lists the first of each key. A relation therefore comes no later than one that is
reported only at a greater distance or for a later key (`usages_breadthFirst`).
-/
import Coupling.Proofs.Usage.Monotone
import Mathlib.Data.Nat.Find
import Mathlib.Order.Bounds.Basic

namespace Coupling

namespace Usage

variable {g : Registry} {o : Options} {seeds : List TypeRef}

/-! ## Distances -/

/-- A reference that some number of steps lead to, each to a successor that the type filter accepts. -/
inductive ReachIn (g : Registry) (o : Options) (seeds : List TypeRef) : Nat → TypeRef → Prop
  | seed {r : TypeRef} : r ∈ seeds → ReachIn g o seeds 0 r
  | step {n : Nat} {r t : TypeRef} : ReachIn g o seeds n r → t ∈ successorsOf g o r →
      o.types.accepts t = true → ReachIn g o seeds (n + 1) t

/-- The least number of steps in which a reference is reached. -/
def IsDistance (g : Registry) (o : Options) (seeds : List TypeRef) (r : TypeRef) (n : Nat) : Prop :=
  IsLeast {n | ReachIn g o seeds n r} n

variable {r t : TypeRef} {m n : Nat}

theorem ReachIn.reach (h : ReachIn g o seeds n r) : Reach g o seeds r := by
  induction h with
  | seed hr => exact .seed hr
  | step _ ht haccepts ih => exact .step ih ht haccepts

theorem ReachIn.exists_distance (h : ReachIn g o seeds n r) : ∃ m ≤ n, IsDistance g o seeds r m := by
  classical
  have hex : ∃ n, ReachIn g o seeds n r := ⟨n, h⟩
  exact ⟨Nat.find hex, Nat.find_min' hex h, Nat.find_spec hex, fun _ hm => Nat.find_min' hex hm⟩

theorem IsDistance.reachIn (h : IsDistance g o seeds r n) : ReachIn g o seeds n r := h.1

theorem IsDistance.le (h : IsDistance g o seeds r n) (hm : ReachIn g o seeds m r) : n ≤ m := h.2 hm

theorem IsDistance.reach (h : IsDistance g o seeds r n) : Reach g o seeds r := h.reachIn.reach

/-- What is reached has a distance, and nothing else has one. -/
theorem reach_iff_exists_distance : Reach g o seeds r ↔ ∃ n, IsDistance g o seeds r n := by
  constructor
  · intro hr
    have hsteps : ∃ n, ReachIn g o seeds n r := by
      induction hr with
      | seed hr => exact ⟨0, .seed hr⟩
      | step _ ht haccepts ih =>
        obtain ⟨n, hn⟩ := ih
        exact ⟨n + 1, .step hn ht haccepts⟩
    obtain ⟨n, hn⟩ := hsteps
    obtain ⟨m, -, hm⟩ := hn.exists_distance
    exact ⟨m, hm⟩
  · rintro ⟨n, hn⟩
    exact hn.reach

theorem isDistance_zero : IsDistance g o seeds r 0 ↔ r ∈ seeds := by
  constructor
  · intro h
    cases h.reachIn with
    | seed hr => exact hr
  · exact fun hr => ⟨ReachIn.seed hr, fun _ _ => Nat.zero_le _⟩

/-- A farther reference is a successor of one that is one step nearer. -/
theorem IsDistance.predecessor (h : IsDistance g o seeds t (n + 1)) :
    ∃ r, IsDistance g o seeds r n ∧ t ∈ successorsOf g o r ∧ o.types.accepts t = true := by
  cases h.reachIn with
  | step hr ht haccepts =>
    refine ⟨_, ⟨hr, fun m hm => ?_⟩, ht, haccepts⟩
    exact Nat.le_of_succ_le_succ (h.le (ReachIn.step hm ht haccepts))

/-! ## Ranks -/

/-- Where a reference comes in a search: first by its distance, then by its key. -/
structure Rank where
  distance : Nat
  key : TypeKey

instance : LE Rank where
  le a b := a.distance < b.distance ∨ a.distance = b.distance ∧ (compare a.key b.key).isLE = true

theorem Rank.le_refl (a : Rank) : a ≤ a := .inr ⟨rfl, by simp⟩

theorem Rank.le_trans {a b c : Rank} (hab : a ≤ b) (hbc : b ≤ c) : a ≤ c := by
  rcases hab with hab | ⟨hab, hkey⟩ <;> rcases hbc with hbc | ⟨hbc, hkey'⟩
  · exact .inl (Nat.lt_trans hab hbc)
  · exact .inl (hbc ▸ hab)
  · exact .inl (hab ▸ hbc)
  · exact .inr ⟨hab.trans hbc, Std.TransCmp.isLE_trans hkey hkey'⟩

/-- The distance and the key of a reference. -/
def HasRank (g : Registry) (o : Options) (seeds : List TypeRef) (r : TypeRef) (a : Rank) : Prop :=
  IsDistance g o seeds r a.distance ∧ r.key = a.key

theorem HasRank.unique {a b : Rank} (ha : HasRank g o seeds r a) (hb : HasRank g o seeds r b) : a = b := by
  cases a
  cases b
  obtain ⟨hdistance, rfl⟩ := ha
  obtain ⟨hdistance', rfl⟩ := hb
  rw [Rank.mk.injEq]
  exact ⟨hdistance.unique hdistance', rfl⟩

/-- A reference comes no later than another. -/
def NoLater (g : Registry) (o : Options) (seeds : List TypeRef) (r t : TypeRef) : Prop :=
  ∃ a b, HasRank g o seeds r a ∧ HasRank g o seeds t b ∧ a ≤ b

theorem NoLater.le {a b : Rank} (h : r = t ∨ NoLater g o seeds r t) (ha : HasRank g o seeds r a)
    (hb : HasRank g o seeds t b) : a ≤ b := by
  rcases h with rfl | ⟨a', b', ha', hb', hle⟩
  · rw [ha.unique hb]
    exact b.le_refl
  · rw [ha.unique ha', hb.unique hb']
    exact hle

theorem Reach.exists_rank (h : Reach g o seeds r) : ∃ a, HasRank g o seeds r a := by
  obtain ⟨n, hn⟩ := reach_iff_exists_distance.1 h
  exact ⟨⟨n, r.key⟩, hn, rfl⟩

/-- The ranks of the references for which a relation of some key is reported. -/
def emittedAt (g : Registry) (o : Options) (seeds : List TypeRef) (k : RelationKey) : Set Rank :=
  {a | ∃ r, HasRank g o seeds r a ∧ ∃ x ∈ relationsOf g o r, x.key = k}

/-! ## Levels hold distances -/

/-- What holds when all levels before one are done: the level holds the references of one distance, `order` lists
the nearer ones by their ranks, and what was found are the first relations of each key along it. -/
structure InOrder (g : Registry) (o : Options) (seeds : List TypeRef) (n : Nat) (order : List TypeRef)
    (frontier : RefSet) (p : Progress) : Prop where
  between : Between g o seeds frontier p
  level : ∀ r, r ∈ frontier.values ↔ IsDistance g o seeds r n
  earlier : ∀ r, r ∈ order ↔ ∃ m < n, IsDistance g o seeds r m
  sorted : order.Pairwise (NoLater g o seeds)
  processed : ∀ k, k ∈ p.processed ↔ ∃ r ∈ order, r.key = k
  found : (p.relations, p.seen) = Search.unmet Relation.key [] (order.flatMap (relationsOf g o))

variable {order : List TypeRef} {frontier : RefSet} {p : Progress}

theorem Between.mem_keys (h : Between g o seeds frontier p) {k : TypeKey} :
    k ∈ frontier.keys ↔ ∃ r ∈ frontier.values, r.key = k := by
  simp only [SortedMap.keys, SortedMap.values, List.mem_map]
  constructor
  · rintro ⟨e, he, rfl⟩
    exact ⟨e.2, ⟨e, he, rfl⟩, (h.keyed e he).symm⟩
  · rintro ⟨-, ⟨e, he, rfl⟩, rfl⟩
    exact ⟨e, he, h.keyed e he⟩

theorem inOrder_start (hg : g.Consistent) (hc : Coherent g seeds) :
    InOrder g o seeds 0 [] (seedSet seeds) {} where
  between := between_start g o seeds
  level r := by
    rw [isDistance_zero]
    constructor
    · intro hr
      obtain ⟨e, he, rfl⟩ := List.mem_map.1 hr
      obtain ⟨x, hx, rfl⟩ := mem_seedSet e he
      exact hx
    · intro hr
      exact (between_start g o seeds).mem_values hg hc (.seed hr) (keys_seedSet.2 ⟨r, hr, rfl⟩)
  earlier r := by simp
  sorted := .nil
  processed k := by simp
  found := rfl

theorem InOrder.mem_looked (h : InOrder g o seeds n order frontier p) (r : TypeRef) :
    r ∈ order ++ frontier.values ↔ ∃ m < n + 1, IsDistance g o seeds r m := by
  rw [List.mem_append, h.earlier, h.level]
  constructor
  · rintro (⟨m, hm, hr⟩ | hr)
    · exact ⟨m, Nat.lt_succ_of_lt hm, hr⟩
    · exact ⟨n, Nat.lt_succ_self n, hr⟩
  · rintro ⟨m, hm, hr⟩
    rcases Nat.lt_succ_iff_lt_or_eq.1 hm with hm | rfl
    · exact .inl ⟨m, hm, hr⟩
    · exact .inr hr

theorem InOrder.processed_looked (h : InOrder g o seeds n order frontier p) (k : TypeKey) :
    k ∈ (looked g o frontier p).processed ↔ ∃ r ∈ order ++ frontier.values, r.key = k := by
  simp only [looked, List.mem_append, h.between.mem_keys, h.processed, or_and_right, exists_or, or_comm]

/-- The level after a level holds the references that are one step farther. -/
theorem InOrder.level_following (h : InOrder g o seeds n order frontier p) (hg : g.Consistent)
    (hc : Coherent g seeds) (t : TypeRef) :
    t ∈ (following g o frontier p).values ↔ IsDistance g o seeds t (n + 1) := by
  constructor
  · intro ht
    obtain ⟨e, he, rfl⟩ := List.mem_map.1 ht
    obtain ⟨hsucc, hkey, haccepts, hnew⟩ := mem_nextLevel he
    obtain ⟨r, hr, hsucc⟩ := List.mem_flatMap.1 hsucc
    refine ⟨ReachIn.step ((h.level r).1 hr).reachIn hsucc haccepts, fun m hm => ?_⟩
    -- at a smaller distance it would have been looked into
    by_contra hlt
    obtain ⟨d, hd, hdistance⟩ := ReachIn.exists_distance hm
    refine hnew ((h.processed_looked _).2 ⟨e.2, (h.mem_looked e.2).2 ⟨d, ?_, hdistance⟩, hkey.symm⟩)
    omega
  · intro ht
    obtain ⟨r, hr, hsucc, haccepts⟩ := ht.predecessor
    rcases h.between.mem_following hg hc ((h.level r).2 hr) hsucc haccepts with hold | hnext
    · obtain ⟨t', ht', hkey⟩ := (h.processed_looked _).1 hold
      obtain ⟨m, hm, hdistance⟩ := (h.mem_looked t').1 ht'
      obtain rfl := hc _ (hdistance.reach.mem_within hg) _ (ht.reach.mem_within hg) hkey
      exact absurd (ht.le hdistance.reachIn) (Nat.not_le_of_lt hm)
    · exact (h.between.step hg hc).mem_values hg hc ht.reach hnext

/-- The references of a level come in the order of their keys, after all nearer ones. -/
theorem InOrder.sorted_looked (h : InOrder g o seeds n order frontier p) :
    (order ++ frontier.values).Pairwise (NoLater g o seeds) := by
  refine List.pairwise_append.2 ⟨h.sorted, ?_, fun r hr t ht => ?_⟩
  · refine List.pairwise_map.2 (List.Pairwise.imp_of_mem (fun {d e} hd he hlt => ?_) h.between.sorted)
    rw [h.between.keyed d hd, h.between.keyed e he] at hlt
    exact ⟨⟨n, d.2.key⟩, ⟨n, e.2.key⟩, ⟨(h.level d.2).1 (List.mem_map_of_mem hd), rfl⟩,
      ⟨(h.level e.2).1 (List.mem_map_of_mem he), rfl⟩, .inr ⟨rfl, by rw [hlt]; rfl⟩⟩
  · obtain ⟨m, hm, hdistance⟩ := (h.earlier r).1 hr
    exact ⟨⟨m, r.key⟩, ⟨n, t.key⟩, ⟨hdistance, rfl⟩, ⟨(h.level t).1 ht, rfl⟩, .inl hm⟩

/-- **One level keeps the order.** -/
theorem InOrder.step (h : InOrder g o seeds n order frontier p) (hg : g.Consistent) (hc : Coherent g seeds) :
    InOrder g o seeds (n + 1) (order ++ frontier.values) (following g o frontier p) (looked g o frontier p) where
  between := h.between.step hg hc
  level := h.level_following hg hc
  earlier := h.mem_looked
  sorted := h.sorted_looked
  processed := h.processed_looked
  found := by
    rw [List.flatMap_append, Search.unmet_append, ← h.found]
    rfl

/-- **The search looks into all that is reached, in the order of ranks**, and lists the first relation of each key
that it meets. -/
theorem exists_order (hg : g.Consistent) (hc : Coherent g seeds) (o : Options) :
    ∃ order : List TypeRef, (∀ r, r ∈ order ↔ Reach g o seeds r) ∧ order.Pairwise (NoLater g o seeds) ∧
      (explore g o (g.outlook seeds).length (seedSet seeds) {}).relations =
        (Search.unmet Relation.key [] (order.flatMap (relationsOf g o))).1 := by
  have hbetween : ∀ frontier p, (∃ n order, InOrder g o seeds n order frontier p) →
      Between g o seeds frontier p := by
    rintro frontier p ⟨n, order, h⟩
    exact h.between
  have hstep : ∀ frontier p, (∃ n order, InOrder g o seeds n order frontier p) →
      ∃ n order, InOrder g o seeds n order (following g o frontier p) (looked g o frontier p) := by
    rintro frontier p ⟨n, order, h⟩
    exact ⟨n + 1, _, h.step hg hc⟩
  obtain ⟨last, hempty, n, order, h⟩ :=
    explore_induct hg hbetween hstep (g.outlook seeds).length ⟨0, [], inOrder_start hg hc⟩ (length_within_le g seeds)
  refine ⟨order, fun r => ⟨fun hr => ?_, fun hr => ?_⟩, h.sorted, congrArg Prod.fst h.found⟩
  · obtain ⟨m, -, hdistance⟩ := (h.earlier r).1 hr
    exact hdistance.reach
  · obtain ⟨r', hr', hkey⟩ := (h.processed _).1 (h.between.mem_processed hempty hr)
    obtain ⟨m, -, hdistance⟩ := (h.earlier r').1 hr'
    exact hc _ (hdistance.reach.mem_within hg) _ (hr.mem_within hg) hkey ▸ hr'

/-- In a list of references by rank, one that meets a condition comes before all others that do. -/
theorem exists_first {P : TypeRef → Prop} (horder : order.Pairwise (NoLater g o seeds)) (h : ∃ r ∈ order, P r) :
    ∃ r ∈ order, P r ∧ ∀ t ∈ order, P t → r = t ∨ NoLater g o seeds r t := by
  induction horder with
  | nil => simp at h
  | @cons c order hc _ ih =>
    by_cases hcP : P c
    · exact ⟨c, List.mem_cons_self, hcP, fun t ht _ => (List.mem_cons.1 ht).imp Eq.symm (hc t)⟩
    · have hrest : ∃ r ∈ order, P r := by
        obtain ⟨r, hr, hrP⟩ := h
        rcases List.mem_cons.1 hr with rfl | hr
        · exact absurd hrP hcP
        · exact ⟨r, hr, hrP⟩
      obtain ⟨r, hr, hrP, hfirst⟩ := ih hrest
      refine ⟨r, List.mem_cons_of_mem _ hr, hrP, fun t ht htP => ?_⟩
      rcases List.mem_cons.1 ht with rfl | ht
      · exact absurd htP hcP
      · exact hfirst t ht htP

end Usage

namespace Registry

open Usage

variable {F : TypeRef → Prop} {g : Registry}

/-- **Usages come breadth first.** In a registry whose references, and the references it was asked for, belong to one
family, let seeds of the family be given. What is reached from them is what has a distance. The keys of the usages are
those with a least rank, that is distance and then key, among the references reached for which a relation of that key
is reported, and they are listed in the order of these ranks. -/
theorem usages_breadthFirst (hF : Family F) (hg : Reached F g) (hrefs : ∀ r ∈ g.references, F r) (o : Options)
    {seeds : List TypeRef} (hseeds : ∀ r ∈ seeds, ∀ p ∈ r.parts, F p) :
    (∀ r, Reach g o seeds r ↔ ∃ n, IsDistance g o seeds r n) ∧
      (∀ k, k ∈ g.usageKeys o seeds ↔ ∃ a, IsLeast (emittedAt g o seeds k) a) ∧
      (g.usageKeys o seeds).Pairwise fun k l =>
        ∀ a b, IsLeast (emittedAt g o seeds k) a → IsLeast (emittedAt g o seeds l) b → a ≤ b := by
  have hsound := hg.sound hF hrefs
  obtain ⟨order, hmem, hsorted, hfound⟩ :=
    exists_order hsound.consistent (coherent_of_family hF hrefs hseeds) o
  refine ⟨fun _ => reach_iff_exists_distance, fun k => ?_, ?_⟩
  · rw [mem_usageKeys hF hsound hrefs hseeds]
    constructor
    · rintro ⟨r, hr, hemits⟩
      obtain ⟨first, hfirst, hemits, hleast⟩ :=
        exists_first (P := fun r => ∃ x ∈ relationsOf g o r, x.key = k) hsorted ⟨r, (hmem r).2 hr, hemits⟩
      obtain ⟨a, ha⟩ := ((hmem first).1 hfirst).exists_rank
      refine ⟨a, ⟨first, ha, hemits⟩, ?_⟩
      rintro b ⟨t, hb, hemits⟩
      exact NoLater.le (hleast t ((hmem t).2 hb.1.reach) hemits) ha hb
    · rintro ⟨a, ⟨r, ha, hemits⟩, -⟩
      exact ⟨r, ha.1.reach, hemits⟩
  · rw [usageKeys, usages_eq_explore hF hsound hrefs o hseeds, hfound]
    refine (Search.pairwise_unmet_flatMap hsorted []).imp fun {k l} hbefore a b ha hb => ?_
    obtain ⟨t, hb, hemits⟩ := hb.1
    obtain ⟨r, hr, hemits, hle⟩ := hbefore t ((hmem t).2 hb.1.reach) hemits
    obtain ⟨a', ha'⟩ := ((hmem r).1 hr).exists_rank
    exact Rank.le_trans (ha.2 ⟨r, ha', hemits⟩) (NoLater.le hle ha' hb)

theorem usages_breadthFirst_shopping :
    (shopping.usageKeys {} [.plain "Shop" "Basket" "Shop"]).length = 5 ∧
      (shopping.usageKeys {} [.plain "Shop" "Basket" "Shop"]).Pairwise fun k l =>
        ∀ a b, IsLeast (emittedAt shopping {} [.plain "Shop" "Basket" "Shop"] k) a →
          IsLeast (emittedAt shopping {} [.plain "Shop" "Basket" "Shop"] l) b → a ≤ b := by
  refine ⟨by decide +kernel, (usages_breadthFirst family_shopReferences ?_ references_shopping {} ?_).2.2⟩
  · exact .resolve (.add .empty rfl) (by simp [shopReferences])
  · simp [TypeRef.parts, shopReferences]

end Registry

end Coupling
