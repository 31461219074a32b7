/-
Usages are the relations of all that is reached.

`Reach` is the least set of references that holds the references given and, with
a reference, all its successors that the type filter accepts. The search looks
into it level by level; `Between` is what holds between two levels, and one level
keeps it (`Between.step`). There are no more references to look into than there
are levels, so the last level is empty (`explore_induct`), and then the
relations found are those of everything reached, up to their keys and each key
once (`usages_closure`).
-/
import Coupling.Proofs.Usage.Meaning
import Mathlib.Data.List.Perm.Subperm

namespace Coupling

namespace Usage

/-! ## What is reached -/

/-- What looking into references leads to, the references given included. -/
inductive Reach (g : Registry) (o : Options) (seeds : List TypeRef) : TypeRef → Prop
  | seed {r : TypeRef} : r ∈ seeds → Reach g o seeds r
  | step {r t : TypeRef} : Reach g o seeds r → t ∈ successorsOf g o r → o.types.accepts t = true →
      Reach g o seeds t

/-- Relations that are those of all that is reached, up to their keys and each key once. -/
structure Closure (g : Registry) (o : Options) (seeds : List TypeRef) (rs : List Relation) : Prop where
  sound : ∀ x ∈ rs, ∃ r, Reach g o seeds r ∧ x ∈ relationsOf g o r
  complete : ∀ r, Reach g o seeds r → ∀ x ∈ relationsOf g o r, ∃ y ∈ rs, y.key = x.key
  once : (rs.map Relation.key).Nodup

variable {g : Registry} {o : Options} {seeds : List TypeRef}

theorem parts_within {r p : TypeRef} (hr : r ∈ within g seeds) (hp : p ∈ r.parts) : p ∈ within g seeds := by
  rcases List.mem_append.1 hr with hr | hr
  · obtain ⟨x, hx, hr⟩ := List.mem_flatMap.1 hr
    exact List.mem_append_left _ (List.mem_flatMap.2 ⟨x, hx, TypeRef.parts_trans hp x hr⟩)
  · exact List.mem_append_right _ (Registry.parts_mem_references_of_mem hr hp)

theorem successors_within (hg : g.Consistent) {r t : TypeRef} (hr : r ∈ within g seeds)
    (ht : t ∈ successorsOf g o r) : t ∈ within g seeds :=
  successorsOf_closed (Q := (· ∈ within g seeds)) hg (fun _ hr _ hp => parts_within hr hp)
    (fun _ ht => List.mem_append_right _ ht) o hr ht

theorem Reach.mem_within (hg : g.Consistent) {r : TypeRef} (hr : Reach g o seeds r) : r ∈ within g seeds := by
  induction hr with
  | seed hr => exact List.mem_append_left _ (List.mem_flatMap.2 ⟨_, hr, TypeRef.self_mem_parts _⟩)
  | step _ ht _ ih => exact successors_within hg ih ht

/-! ## Between levels -/

/-- What holds when a level is done: all that was looked into is reached, and of what is reached and was
looked into the relations are found and the accepted successors were looked into or come next. -/
structure Between (g : Registry) (o : Options) (seeds : List TypeRef) (frontier : RefSet) (p : Progress) :
    Prop where
  keyed : ∀ e ∈ frontier.entries, e.1 = e.2.key
  sorted : frontier.Sorted
  reached : ∀ r ∈ frontier.values, Reach g o seeds r
  fresh : ∀ k ∈ frontier.keys, k ∉ p.processed
  distinct : p.processed.Nodup
  processed : ∀ k ∈ p.processed, ∃ r, Reach g o seeds r ∧ r.key = k
  seeded : ∀ r ∈ seeds, r.key ∈ p.processed ∨ r.key ∈ frontier.keys
  led : ∀ r, Reach g o seeds r → r.key ∈ p.processed → ∀ t ∈ successorsOf g o r, o.types.accepts t = true →
    t.key ∈ p.processed ∨ t.key ∈ frontier.keys
  sound : ∀ x ∈ p.relations, ∃ r, Reach g o seeds r ∧ x ∈ relationsOf g o r
  complete : ∀ r, Reach g o seeds r → r.key ∈ p.processed → ∀ x ∈ relationsOf g o r, x.key ∈ p.seen
  seen : p.seen.Perm (p.relations.map Relation.key)
  once : p.seen.Nodup

theorem between_start (g : Registry) (o : Options) (seeds : List TypeRef) :
    Between g o seeds (seedSet seeds) {} where
  keyed e he := by obtain ⟨r, -, rfl⟩ := mem_seedSet e he; rfl
  sorted := SortedMap.sorted_empty.foldl_alter _
  reached r hr := by
    obtain ⟨e, he, rfl⟩ := List.mem_map.1 hr
    obtain ⟨x, hx, rfl⟩ := mem_seedSet e he
    exact .seed hx
  fresh _ _ := List.not_mem_nil
  distinct := List.nodup_nil
  processed _ hk := absurd hk List.not_mem_nil
  seeded r hr := .inr (keys_seedSet.2 ⟨r, hr, rfl⟩)
  led _ _ hr := absurd hr List.not_mem_nil
  sound _ hx := absurd hx List.not_mem_nil
  complete _ _ hr := absurd hr List.not_mem_nil
  seen := .nil
  once := List.nodup_nil

/-- A reference is what its key says, among all that can be looked into. -/
def Coherent (g : Registry) (seeds : List TypeRef) : Prop :=
  ∀ a ∈ within g seeds, ∀ b ∈ within g seeds, a.key = b.key → a = b

variable {frontier : RefSet} {p : Progress}

/-- What is reached and has its key in a level is in the level. -/
theorem Between.mem_values (h : Between g o seeds frontier p) (hg : g.Consistent) (hc : Coherent g seeds)
    {r : TypeRef} (hr : Reach g o seeds r) (hk : r.key ∈ frontier.keys) : r ∈ frontier.values := by
  obtain ⟨e, he, hkey⟩ := List.mem_map.1 hk
  have hmem : e.2 ∈ frontier.values := List.mem_map_of_mem he
  have heq : e.2.key = r.key := by rw [← h.keyed e he, hkey]
  obtain rfl := hc _ ((h.reached _ hmem).mem_within hg) _ (hr.mem_within hg) heq
  exact hmem

/-- An accepted successor of a level was looked into or comes next. -/
theorem Between.mem_following (h : Between g o seeds frontier p) (hg : g.Consistent) (hc : Coherent g seeds)
    {r t : TypeRef} (hr : r ∈ frontier.values) (ht : t ∈ successorsOf g o r)
    (haccepts : o.types.accepts t = true) :
    t.key ∈ (looked g o frontier p).processed ∨ t.key ∈ (following g o frontier p).keys := by
  refine or_iff_not_imp_left.2 fun hnew => ?_
  have hsuccessors : ∀ x ∈ frontier.values.flatMap (successorsOf g o), x ∈ within g seeds := by
    intro x hx
    obtain ⟨y, hy, hx⟩ := List.mem_flatMap.1 hx
    exact successors_within hg ((h.reached y hy).mem_within hg) hx
  have hmem : t ∈ frontier.values.flatMap (successorsOf g o) := List.mem_flatMap.2 ⟨r, hr, ht⟩
  obtain ⟨e, he, hkey⟩ := List.mem_map.1 (keys_addAll.2 (.inr ⟨t, hmem, rfl⟩) :
    t.key ∈ (addAll ∅ (frontier.values.flatMap (successorsOf g o))).keys)
  refine List.mem_map.2 ⟨e, List.mem_filter.2 ⟨he, ?_⟩, hkey⟩
  -- what is listed under the key is the successor itself, so the filter accepts it
  rcases mem_addAll e he with habsurd | ⟨x, hx, rfl⟩
  · exact absurd habsurd List.not_mem_nil
  · obtain rfl := hc _ (hsuccessors x hx) _ (hsuccessors t hmem) hkey
    simp [hnew, haccepts]

/-- **One level keeps what holds between levels.** -/
theorem Between.step (h : Between g o seeds frontier p) (hg : g.Consistent) (hc : Coherent g seeds) :
    Between g o seeds (following g o frontier p) (looked g o frontier p) where
  keyed e he := (mem_nextLevel he).2.1
  sorted := (SortedMap.sorted_empty.foldl_alter _).filter _
  reached r hr := by
    obtain ⟨e, he, rfl⟩ := List.mem_map.1 hr
    obtain ⟨hsucc, -, haccepts, -⟩ := mem_nextLevel he
    obtain ⟨x, hx, hsucc⟩ := List.mem_flatMap.1 hsucc
    exact .step (h.reached x hx) hsucc haccepts
  fresh k hk := by
    obtain ⟨e, he, rfl⟩ := List.mem_map.1 hk
    exact (mem_nextLevel he).2.2.2
  distinct := h.sorted.nodup_keys.append h.distinct fun k hk => h.fresh k hk
  processed k hk := by
    rcases List.mem_append.1 hk with hk | hk
    · obtain ⟨e, he, rfl⟩ := List.mem_map.1 hk
      exact ⟨e.2, h.reached _ (List.mem_map_of_mem he), (h.keyed e he).symm⟩
    · exact h.processed k hk
  seeded r hr := .inl (by
    rcases h.seeded r hr with hk | hk
    · exact List.mem_append_right _ hk
    · exact List.mem_append_left _ hk)
  led r hr hk t ht haccepts := by
    rcases List.mem_append.1 hk with hk | hk
    · exact h.mem_following hg hc (h.mem_values hg hc hr hk) ht haccepts
    · rcases h.led r hr hk t ht haccepts with hold | hnext
      · exact .inl (List.mem_append_right _ hold)
      · exact .inl (List.mem_append_left _ hnext)
  sound x hx := by
    rcases List.mem_append.1 hx with hx | hx
    · exact h.sound x hx
    · obtain ⟨r, hr, hx⟩ := List.mem_flatMap.1 (Search.mem_of_mem_unmet hx)
      exact ⟨r, h.reached r hr, hx⟩
  complete r hr hk x hx := by
    refine Search.mem_unmet_snd.2 ?_
    rcases List.mem_append.1 hk with hk | hk
    · exact .inr ⟨x, List.mem_flatMap.2 ⟨r, h.mem_values hg hc hr hk, hx⟩, rfl⟩
    · exact .inl (h.complete r hr hk x hx)
  seen := by
    refine (Search.unmet_snd_perm _ _).trans ?_
    simp only [looked, found, List.map_append]
    exact List.perm_append_comm.trans (h.seen.append_right _)
  once := Search.nodup_unmet_snd h.once _

/-- No more keys are looked into than there are references, and one less while a level is left. -/
theorem Between.length_processed (h : Between g o seeds frontier p) (hg : g.Consistent)
    (hleft : frontier.isEmpty = false) : p.processed.length < (within g seeds).length := by
  cases hentries : frontier.entries with
  | nil => simp [SortedMap.isEmpty, hentries] at hleft
  | cons e es =>
    have he : e ∈ frontier.entries := by simp [hentries]
    have hnodup : (e.1 :: p.processed).Nodup :=
      List.nodup_cons.2 ⟨h.fresh _ (List.mem_map_of_mem he), h.distinct⟩
    have hsub : e.1 :: p.processed ⊆ (within g seeds).map TypeRef.key := by
      intro k hk
      rcases List.mem_cons.1 hk with rfl | hk
      · rw [h.keyed e he]
        exact List.mem_map_of_mem ((h.reached _ (List.mem_map_of_mem he)).mem_within hg)
      · obtain ⟨r, hr, rfl⟩ := h.processed k hk
        exact List.mem_map_of_mem (hr.mem_within hg)
    have hlength := (List.Nodup.subperm hnodup hsub).length_le
    simp only [List.length_cons, List.length_map] at hlength
    omega

/-- **The search ends because a level is empty**, not because the levels are used up, and what each level keeps
holds then. -/
theorem explore_induct (hg : g.Consistent) {P : RefSet → Progress → Prop}
    (hbetween : ∀ frontier p, P frontier p → Between g o seeds frontier p)
    (hstep : ∀ frontier p, P frontier p → P (following g o frontier p) (looked g o frontier p)) (levels : Nat)
    (h : P frontier p) (hlevels : (within g seeds).length ≤ levels + p.processed.length) :
    ∃ last : RefSet, last.isEmpty = true ∧ P last (explore g o levels frontier p) := by
  induction levels generalizing frontier p with
  | zero =>
    refine ⟨frontier, ?_, h⟩
    by_contra hleft
    have hlt := (hbetween frontier p h).length_processed hg (by simpa using hleft)
    omega
  | succ levels ih =>
    simp only [explore]
    split
    · rename_i hempty
      exact ⟨frontier, hempty, h⟩
    · rename_i hleft
      refine ih (hstep frontier p h) ?_
      have hpos : 0 < frontier.keys.length := by
        simpa [SortedMap.keys, SortedMap.isEmpty, List.length_pos_iff] using hleft
      simp only [looked, List.length_append]
      omega

theorem Between.mem_processed (h : Between g o seeds frontier p) (hempty : frontier.isEmpty = true)
    {r : TypeRef} (hr : Reach g o seeds r) : r.key ∈ p.processed := by
  have hkeys : frontier.keys = [] := by simpa [SortedMap.keys, SortedMap.isEmpty] using hempty
  induction hr with
  | seed hr => simpa [hkeys] using h.seeded _ hr
  | step hr ht haccepts ih => simpa [hkeys] using h.led _ hr ih _ ht haccepts

/-- What was found when nothing is left is what is to be found. -/
theorem Between.closure (h : Between g o seeds frontier p) (hempty : frontier.isEmpty = true) :
    Closure g o seeds p.relations where
  sound := h.sound
  complete r hr x hx := by
    have hseen := h.complete r hr (h.mem_processed hempty hr) x hx
    exact List.mem_map.1 (h.seen.mem_iff.1 hseen)
  once := h.seen.nodup_iff.1 h.once

theorem explore_closure (hg : g.Consistent) (hc : Coherent g seeds) (o : Options) :
    Closure g o seeds (explore g o (g.outlook seeds).length (seedSet seeds) {}).relations := by
  obtain ⟨last, hempty, h⟩ :=
    explore_induct hg (fun _ _ h => h) (fun _ _ h => h.step hg hc) (g.outlook seeds).length
      (between_start g o seeds) (length_within_le g seeds)
  exact h.closure hempty

end Usage

/-! ## Registries and what they were asked -/

namespace Registry

open Resolving Usage

/-- The registries made by adding, loading and indexing modules, where references of a family may be asked
for on the way: for definitions, for methods, and for what they use. -/
inductive Reached (F : TypeRef → Prop) : Registry → Prop
  | empty : Reached F empty
  | add {g g' : Registry} {m : Module} : Reached F g → g.add m = some g' → Reached F g'
  | load {g g' : Registry} {source : ModuleSource} {path : String} {masks : List String} {added : List Module} :
      Reached F g → (g.load source path masks).value = .ok (added, g') → Reached F g'
  | refresh {g : Registry} {ms : List Module} : Reached F g → (∀ m ∈ ms, m ∈ g.modules) → Reached F (g.refresh ms)
  | refreshAll {g : Registry} : Reached F g → Reached F g.refreshAll
  | resolve {g : Registry} {r : TypeRef} : Reached F g → F r → Reached F (g.ask (Resolver.resolve r)).value.2
  | resolveMethod {g : Registry} {m : MethodRef} : Reached F g → F m.declaring →
      Reached F (g.ask (Resolver.resolveMethod m)).value.2
  | usages {g : Registry} {o : Options} {seeds : List TypeRef} : Reached F g →
      (∀ r ∈ seeds, ∀ p ∈ r.parts, F p) → Reached F (g.usages o seeds).value.2
  | usagesOf {g : Registry} {o : Options} {d : TypeDef} : Reached F g → (∀ t ∈ d.references, F t) →
      Reached F (g.usagesOf o d).value.2

/-- What a registry knows is what its modules declare, and what it remembers does not show. -/
structure Sound (F : TypeRef → Prop) (g : Registry) : Prop where
  consistent : Consistent g
  agrees : Resolver.Agrees F g.resolver.clearCache g.resolver

variable {F : TypeRef → Prop} {g : Registry}

theorem Sound.ask {α : Type} {q : Resolving α} {a : α} (h : Sound F g)
    (hq : Yields F g.resolver.clearCache q a) : Sound F (g.ask q).value.2 := by
  have hafter : Resolver.Agrees F g.resolver.clearCache (q.after g.resolver) := (hq g.resolver h.agrees).2
  refine ⟨h.consistent.ask hafter.modules, ?_⟩
  have heq : (q.after g.resolver).clearCache = g.resolver.clearCache := hafter.clearCache_eq
  rw [← heq] at hafter
  exact hafter

theorem Sound.takes {g₁ : Registry} {ms : List Module} (h : Sound F g) (htakes : Takes g [] g₁ ms) :
    Sound F (g₁.refresh ms) := by
  refine ⟨htakes.consistent h.consistent, ?_⟩
  simp only [Registry.refresh]
  rcases htakes.resolver with heq | hcleared
  · rw [heq]
    exact h.agrees
  · rw [hcleared]
    exact .refl F _

theorem Sound.result {α : Type} {q : Resolving α} {a : α} (h : Sound F g)
    (hq : Yields F g.resolver.clearCache q a) : (g.ask q).value.1 = a :=
  (hq g.resolver h.agrees).1

theorem Reached.sound (hF : Family F) (h : Reached F g) (hrefs : ∀ r ∈ g.references, F r) : Sound F g := by
  induction h with
  | empty => exact ⟨consistent_empty, .refl F _⟩
  | add _ hadd ih =>
    obtain ⟨g₁, htakes, rfl⟩ := add_takes hadd
    exact (ih fun r hr => hrefs r (htakes.references hr)).takes htakes
  | load _ hload ih =>
    obtain ⟨g₁, htakes, rfl⟩ := load_takes hload
    exact (ih fun r hr => hrefs r (htakes.references hr)).takes htakes
  | refresh _ hms ih => exact ⟨(ih hrefs).consistent.refresh hms, (ih hrefs).agrees⟩
  | refreshAll _ ih => exact ⟨(ih hrefs).consistent.refreshAll, .refl F _⟩
  | resolve _ hr ih => exact (ih hrefs).ask (resolve_yields_meaning hF hr)
  | resolveMethod _ hm ih => exact (ih hrefs).ask (resolveMethod_yields_meaning hF hm)
  | usages _ hseeds ih => exact (ih hrefs).ask (findUsages_yields hF (ih hrefs).consistent hrefs _ hseeds)
  | usagesOf _ hd ih => exact (ih hrefs).ask (ofType_yields hF (ih hrefs).consistent hrefs _ hd)

theorem Reached.apart (h : Reached F g) : (g.modules.map Module.name).Nodup := by
  induction h with
  | empty => exact List.nodup_nil
  | add _ hadd ih =>
    obtain ⟨g₁, htakes, rfl⟩ := add_takes hadd
    exact htakes.apart ih
  | load _ hload ih =>
    obtain ⟨g₁, htakes, rfl⟩ := load_takes hload
    exact htakes.apart ih
  | refresh _ _ ih | refreshAll _ ih | resolve _ _ ih | resolveMethod _ _ ih | usages _ _ ih | usagesOf _ _ ih =>
    exact ih

/-- The relations of one type are those that its definition states by what references mean. -/
theorem usagesOf_value (hF : Family F) (h : Sound F g) (hrefs : ∀ r ∈ g.references, F r) (o : Options)
    {d : TypeDef} (hd : ∀ t ∈ d.references, F t) : (g.usagesOf o d).value.1 = relationsOfType g o d :=
  h.result (ofType_yields hF h.consistent hrefs o hd)

theorem coherent_of_family (hF : Family F) (hrefs : ∀ r ∈ g.references, F r) {seeds : List TypeRef}
    (hseeds : ∀ r ∈ seeds, ∀ p ∈ r.parts, F p) : Coherent g seeds := by
  have hwithin : ∀ r ∈ within g seeds, F r := by
    intro r hr
    rcases List.mem_append.1 hr with hr | hr
    · obtain ⟨x, hx, hr⟩ := List.mem_flatMap.1 hr
      exact hseeds x hx r hr
    · exact hrefs r hr
  exact fun a ha b hb => hF.coherent a b (hwithin a ha) (hwithin b hb)

/-- What is kept does not show in usages. -/
theorem usages_eq_explore (hF : Family F) (h : Sound F g) (hrefs : ∀ r ∈ g.references, F r) (o : Options)
    {seeds : List TypeRef} (hseeds : ∀ r ∈ seeds, ∀ p ∈ r.parts, F p) :
    (g.usages o seeds).value.1 = (explore g o (g.outlook seeds).length (seedSet seeds) {}).relations :=
  h.result (findUsages_yields hF h.consistent hrefs o hseeds)

theorem closure_usages (hF : Family F) (h : Sound F g) (hrefs : ∀ r ∈ g.references, F r) (o : Options)
    {seeds : List TypeRef} (hseeds : ∀ r ∈ seeds, ∀ p ∈ r.parts, F p) :
    Closure g o seeds (g.usages o seeds).value.1 := by
  rw [usages_eq_explore hF h hrefs o hseeds]
  exact explore_closure h.consistent (coherent_of_family hF hrefs hseeds) o

/-- **Usages are the closure.** In a registry whose references, and the references it was asked for,
belong to one family, the usages of references of that family are the relations of all that is reached
from them, up to their keys and each key once. -/
theorem usages_closure (hF : Family F) (hg : Reached F g) (hrefs : ∀ r ∈ g.references, F r) (o : Options)
    {seeds : List TypeRef} (hseeds : ∀ r ∈ seeds, ∀ p ∈ r.parts, F p) :
    Closure g o seeds (g.usages o seeds).value.1 :=
  closure_usages hF (hg.sound hF hrefs) hrefs o hseeds

/-- A basket that holds a list of items. What is added to it is an item and how many of it. -/
def basket (params : List Param) : TypeDef :=
  let item := TypeRef.plain "Shop" "Item" "Shop"
  { TypeDef.newClass "Shop" "Basket" "Shop" with
    fields := [⟨"items", .genericInstance (.plain "Shop" "List" "Shop") [item]⟩]
    methods := [
      { name := "Add", declaring := .plain "Shop" "Basket" "Shop", params
        body := some ⟨[⟨0, "newobj", .method { declaring := item, name := ".ctor" }⟩]⟩ }] }

/-- Baskets, lists and items. -/
def shop : Module where
  name := "Shop"
  types :=
    [basket [⟨"item", .plain "Shop" "Item" "Shop"⟩, ⟨"number", TypeRef.object⟩],
      .newClass "Shop" "List" "Shop", .newClass "Shop" "Item" "Shop"]

/-- What occurs in the shop. -/
def shopReferences : List TypeRef :=
  [.plain "Shop" "Basket" "Shop", .genericInstance (.plain "Shop" "List" "Shop") [.plain "Shop" "Item" "Shop"],
    .plain "Shop" "List" "Shop", .plain "Shop" "Item" "Shop", TypeRef.void, TypeRef.object]

theorem family_shopReferences : Family (· ∈ shopReferences) := by
  refine .of_nodup_keys ?_ (by decide +kernel) (by decide)
  simp [shopReferences, TypeRef.void, TypeRef.object, TypeRef.followed, TypeRef.followedOfList,
    TypeRef.isGenericParameter]

/-- The shop after its list was looked up. -/
def shopping : Registry :=
  (((empty.add shop).getD empty).ask (Resolver.resolve (.plain "Shop" "List" "Shop"))).value.2

theorem references_shopping : ∀ r ∈ shopping.references, r ∈ shopReferences := by
  have hrefs : shopping.references =
      [.plain "Shop" "Basket" "Shop",
        .genericInstance (.plain "Shop" "List" "Shop") [.plain "Shop" "Item" "Shop"], .plain "Shop" "List" "Shop",
        .plain "Shop" "Item" "Shop", .plain "Shop" "Item" "Shop", TypeRef.object, TypeRef.void,
        .plain "Shop" "Item" "Shop", .plain "Shop" "List" "Shop", .plain "Shop" "Item" "Shop"] := rfl
  simp [hrefs, shopReferences]

theorem usages_closure_shopping :
    (shopping.usages {} [.plain "Shop" "Basket" "Shop"]).value.1.length = 5 ∧
      Closure shopping {} [.plain "Shop" "Basket" "Shop"]
        (shopping.usages {} [.plain "Shop" "Basket" "Shop"]).value.1 := by
  refine ⟨by decide +kernel, usages_closure family_shopReferences ?_ references_shopping {} ?_⟩
  · exact .resolve (.add .empty rfl) (by simp [shopReferences])
  · simp [TypeRef.parts, shopReferences]

end Registry

end Coupling
