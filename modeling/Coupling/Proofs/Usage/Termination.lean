/-
A search for usages ends.

A search never leaves references that enclose it: a relation leads to a part of the
reference it comes from, to a reference of a definition that can be found, or to a
type that is filed (`Origin.target_mem`). A level holds keys that no level before it
held. So the levels that are not empty are no more than there are keys, and the
search stops at the first empty one (`search_levels`). Keys may stand for several
references, and definitions may use each other in circles.

Where the resolver knows the loaded modules, the references given and those of the
modules enclose a search (`usages_levels`). Where it knows other modules, or none of
the loaded ones, the outlook does, so that no search is cut off (`usages_not_cut`).
-/
import Coupling.Proofs.Distinct
import Coupling.Proofs.Usage.Closure
import Coupling.Proofs.Usage.Origins
import Coupling.Proofs.Usage.Stages
import Mathlib.Data.List.Perm.Subperm
import Mathlib.Data.Nat.Find

namespace Coupling

open Resolver

/-! ## What a registry keeps -/

namespace Registry

open Usage

/-- The index and the resolver hold what the modules declare, and so does what is kept. -/
structure Grounded (g : Registry) : Prop where
  consistent : Consistent g
  finds : Finds (· ∈ g.declared) g.resolver

variable {g : Registry}

theorem Grounded.ask {α : Type} (h : Grounded g) {q : Resolving α} (hq : q.Asks) : Grounded (g.ask q).value.2 where
  consistent :=
    h.consistent.ask (hq.respects sameModules_asking g.resolver)
  finds := hq.respects (finds_asking (· ∈ g.declared)) g.resolver h.finds

/-- The resolver finds in its modules what they declare, so that only what is kept counts. -/
theorem Consistent.grounded (h : Consistent g)
    (hkept : ∀ k d, g.resolver.types.get? k = some (some d) → d ∈ g.declared) : Grounded g :=
  ⟨h, hkept, fun _ _ _ hd => declared_of_definition? h hd⟩

theorem Grounded.takes {g₁ : Registry} {ms : List Module} (h : Grounded g) (htakes : Takes g [] g₁ ms) :
    Grounded (g₁.refresh ms) := by
  refine (htakes.consistent h.consistent).grounded fun k d hd => ?_
  rcases htakes.resolver with hsame | hcleared
  · obtain ⟨new, hmodules, -⟩ := htakes.new
    have hold : d ∈ g.declared := h.finds.kept k d (hsame ▸ hd)
    rw [declared] at hold ⊢
    simp only [Registry.refresh, hmodules, List.flatMap_append, List.mem_append]
    exact .inl hold
  · have hnothing : g₁.resolver.types.get? k = none := by
      rw [hcleared]
      rfl
    cases hnothing.symm.trans hd

/-- **Whatever a registry was asked, it keeps definitions of its modules.** -/
theorem Reached.grounded {F : TypeRef → Prop} (h : Reached F g) : Grounded g := by
  induction h with
  | empty => exact consistent_empty.grounded fun _ _ hd => by cases hd
  | add _ hadd ih =>
    obtain ⟨g₁, htakes, rfl⟩ := add_takes hadd
    exact ih.takes htakes
  | load _ hload ih =>
    obtain ⟨g₁, htakes, rfl⟩ := load_takes hload
    exact ih.takes htakes
  | refresh _ hms ih => exact ⟨ih.consistent.refresh hms, ih.finds⟩
  | refreshAll _ ih => exact ih.consistent.refreshAll.grounded fun _ _ hd => by cases hd
  | resolve _ _ ih => exact ih.ask (.resolve _)
  | resolveMethod _ _ ih => exact ih.ask (.resolveMethod _)
  | usages _ _ ih => exact ih.ask (findUsages_asks _ _ _)
  | usagesOf _ _ ih => exact ih.ask (ofType_asks _ _ _)

end Registry

namespace Usage

variable {g : Registry} {o : Options} {seeds all : List TypeRef} {D : TypeDef → Prop}

/-! ## Where a search can lead -/

theorem OfMethod.target_mem {source t : TypeRef} {m : MethodDef} {x : Relation} (h : OfMethod source m x)
    (ht : x.target = some t) : t ∈ m.references := by
  cases h with
  | param hp =>
    cases ht
    exact List.mem_append_left _ (List.mem_map_of_mem hp)
  | returns =>
    cases ht
    exact List.mem_append_right _ List.mem_cons_self
  | typeOperand hi hop =>
    cases ht
    exact operand_mem_references hi (.inl hop)
  | methodOperand found hi hop =>
    cases ht
    exact operand_mem_references hi (.inr ⟨_, hop, rfl⟩)

/-- References that a search never leaves: those it is given are among them, with each its parts, and so are those
of definitions of a kind and the types that are filed under interfaces. -/
structure Encloses (g : Registry) (seeds : List TypeRef) (D : TypeDef → Prop) (all : List TypeRef) : Prop where
  seeds : ∀ r ∈ seeds, r ∈ all
  parts : ∀ r ∈ all, ∀ p ∈ r.parts, p ∈ all
  stated : ∀ d, D d → ∀ t ∈ d.references, t ∈ all
  filed : ∀ k, ∀ d ∈ g.implementersOf k, d.reference ∈ all

/-- A relation leads to a part of a reference, to a reference of a definition or to a type that is filed. -/
theorem Origin.target_mem (hall : Encloses g seeds D all) {r t : TypeRef} {x : Relation} (h : Origin g o D r x)
    (ht : x.target = some t) (hr : r ∈ all) : t ∈ all := by
  cases h with
  | constraint hc =>
    cases ht
    exact hall.parts _ hr _ (TypeRef.constraint_mem_parts hc)
  | element =>
    cases ht
    exact hall.parts _ hr _ TypeRef.element_mem_parts
  | argument ha =>
    cases ht
    exact hall.parts _ hr _ (TypeRef.argument_mem_parts ha)
  | declaration hd hx =>
    rcases target_of_ofDeclaration hx ht with hmem | ⟨e, he, rfl⟩
    · exact hall.stated _ hd _ hmem
    · exact hall.filed _ e he
  | method hd hm hx =>
    exact hall.stated _ hd _ (TypeDef.method_references (List.mem_of_mem_filter hm) (hx.target_mem ht))

theorem successors_expand_mem (hall : Encloses g seeds D all) {s : Resolver} (hs : Finds D s) {r t : TypeRef}
    (hr : r ∈ all) (ht : t ∈ ((expand g o r).result s).successors) : t ∈ all := by
  rcases mem_successors_expand hs ht with hpart | ⟨x, hx, htarget⟩
  · exact hall.parts _ hr _ hpart
  · exact hx.target_mem hall htarget hr

/-! ## Levels -/

/-- References that are listed under their keys, in order, and can be looked into. -/
structure Listed (all : List TypeRef) (level : RefSet) : Prop where
  sorted : level.Sorted
  entries : ∀ e ∈ level.entries, e.1 = e.2.key ∧ e.2 ∈ all

theorem Listed.addAll {level : RefSet} (h : Listed all level) {rs : List TypeRef} (hrs : ∀ r ∈ rs, r ∈ all) :
    Listed all (Usage.addAll level rs) := by
  refine ⟨h.sorted.foldl_alter rs, fun e he => ?_⟩
  rcases mem_addAll e he with he | ⟨r, hr, rfl⟩
  · exact h.entries e he
  · exact ⟨rfl, hrs r hr⟩

theorem Listed.nextLevel {level : RefSet} (h : Listed all level) (o : Options) (p : Progress) :
    Listed all (Usage.nextLevel o p level) :=
  ⟨h.sorted.filter _, fun e he => h.entries e (List.mem_of_mem_filter he)⟩

theorem fresh_nextLevel {level : RefSet} {p : Progress} {k : TypeKey} (hk : k ∈ (nextLevel o p level).keys) :
    k ∉ p.processed := by
  obtain ⟨e, he, rfl⟩ := List.mem_map.1 hk
  have hkeep := (List.mem_filter.1 he).2
  simp only [Bool.and_eq_true, Bool.not_eq_true', List.contains_eq_mem, decide_eq_false_iff_not] at hkeep
  exact hkeep.1

theorem listed_seedSet (hseeds : ∀ r ∈ seeds, r ∈ all) : Listed all (seedSet seeds) := by
  refine ⟨SortedMap.sorted_empty.foldl_alter _, fun e he => ?_⟩
  obtain ⟨r, hr, rfl⟩ := mem_seedSet e he
  exact ⟨rfl, hseeds r hr⟩

theorem Listed.keys_eq {level : RefSet} (h : Listed all level) : level.keys = level.values.map TypeRef.key := by
  unfold SortedMap.keys SortedMap.values
  rw [List.map_map]
  exact List.map_congr_left fun e he => (h.entries e he).1

/-- What holds between levels: the keys looked into are distinct and can be looked into, those of the next level are
not among them, and definitions are of the kind. -/
structure Bounded (D : TypeDef → Prop) (all : List TypeRef) (x : Stage) : Prop where
  frontier : Listed all x.frontier
  fresh : ∀ k ∈ x.frontier.keys, k ∉ x.progress.processed
  distinct : x.progress.processed.Nodup
  processed : ∀ k ∈ x.progress.processed, k ∈ all.map TypeRef.key
  finds : Finds D x.memory

theorem bounded_start (hall : Encloses g seeds D all) (hfinds : Finds D g.resolver) :
    Bounded D all (Stage.start g seeds) where
  frontier := listed_seedSet hall.seeds
  fresh _ _ := List.not_mem_nil
  distinct := List.nodup_nil
  processed _ hk := absurd hk List.not_mem_nil
  finds := hfinds

/-- What a level leaves behind it. -/
theorem Bounded.level {x : Stage} (h : Bounded D all x) (hall : Encloses g seeds D all) (o : Options) :
    ((x.level g o).result x.memory).1.processed = x.progress.processed ∧
      Listed all ((x.level g o).result x.memory).2 ∧ Finds D ((x.level g o).after x.memory) := by
  refine expandAll_induct (P := fun p successors s => p.processed = x.progress.processed ∧
    Listed all successors ∧ Finds D s) ?_
    ⟨rfl, ⟨SortedMap.sorted_empty, fun _ he => absurd he List.not_mem_nil⟩, h.finds⟩
  intro r hr p successors s hp
  obtain ⟨hprocessed, hlisted, hfinds⟩ := hp
  obtain ⟨e, he, rfl⟩ := List.mem_map.1 hr
  refine ⟨hprocessed, hlisted.addAll fun t ht => ?_, (expand_asks g o e.2).respects (finds_asking _) s hfinds⟩
  exact successors_expand_mem hall hfinds (h.frontier.entries e he).2 ht

theorem processed_next {x : Stage} (h : Bounded D all x) (hall : Encloses g seeds D all) (o : Options) :
    (x.next g o).progress.processed = x.frontier.keys ++ x.progress.processed := by
  cases hempty : x.frontier.isEmpty with
  | true =>
    have hkeys : x.frontier.keys = [] := by simpa [SortedMap.keys, SortedMap.isEmpty] using hempty
    rw [Stage.next_of_isEmpty hempty, hkeys]
    rfl
  | false =>
    rw [Stage.next_of_not_isEmpty hempty]
    simp only [Stage.looked, (h.level hall o).1]

/-- **One level keeps what holds between levels.** -/
theorem Bounded.next {x : Stage} (h : Bounded D all x) (hall : Encloses g seeds D all) (o : Options) :
    Bounded D all (x.next g o) := by
  have hprocessed := processed_next h hall o
  have hdistinct : (x.next g o).progress.processed.Nodup := by
    rw [hprocessed]
    exact h.frontier.sorted.nodup_keys.append h.distinct fun k hk => h.fresh k hk
  have hmem : ∀ k ∈ (x.next g o).progress.processed, k ∈ all.map TypeRef.key := by
    intro k hk
    rw [hprocessed] at hk
    rcases List.mem_append.1 hk with hk | hk
    · obtain ⟨e, he, rfl⟩ := List.mem_map.1 hk
      obtain ⟨hkey, he⟩ := h.frontier.entries e he
      exact hkey ▸ List.mem_map_of_mem he
    · exact h.processed k hk
  obtain ⟨-, hlisted, hfinds⟩ := h.level hall o
  cases hempty : x.frontier.isEmpty with
  | true =>
    rw [Stage.next_of_isEmpty hempty]
    exact h
  | false =>
    rw [Stage.next_of_not_isEmpty hempty] at hdistinct hmem ⊢
    exact ⟨hlisted.nextLevel o _, fun k hk => fresh_nextLevel hk, hdistinct, hmem, hfinds⟩

theorem bounded_after (hall : Encloses g seeds D all) (hfinds : Finds D g.resolver) (o : Options) (levels : Nat) :
    Bounded D all (Stage.after g o seeds levels) :=
  Stage.after_induct (bounded_start hall hfinds) (fun _ h => h.next hall o) levels

/-! ## All levels -/

/-- The keys that were looked into are those of the levels so far. -/
theorem processed_after (hall : Encloses g seeds D all) (hfinds : Finds D g.resolver) (o : Options) (levels : Nat) :
    ((List.range levels).flatMap fun k => (Stage.after g o seeds k).frontier.values.map TypeRef.key).Perm
      (Stage.after g o seeds levels).progress.processed := by
  induction levels with
  | zero => exact .nil
  | succ levels ih =>
    have h := bounded_after hall hfinds o levels
    rw [List.range_succ, List.flatMap_append, List.flatMap_singleton, Stage.after_succ, processed_next h hall,
      ← h.frontier.keys_eq]
    exact List.perm_append_comm.trans (ih.append_left _)

/-- How many keys there are among references. -/
def keyCount (rs : List TypeRef) : Nat := (rs.map TypeRef.key).eraseDups.length

theorem keyCount_le (rs : List TypeRef) : keyCount rs ≤ rs.length := by
  have hsub : (rs.map TypeRef.key).eraseDups ⊆ rs.map TypeRef.key := fun k hk => List.mem_eraseDups.1 hk
  have hle := ((nodup_eraseDups _).subperm hsub).length_le
  rwa [List.length_map] at hle

theorem Bounded.length_processed {x : Stage} (h : Bounded D all x) : x.progress.processed.length ≤ keyCount all :=
  (h.distinct.subperm fun k hk => List.mem_eraseDups.2 (h.processed k hk)).length_le

/-- Each level that is not empty has a key. -/
theorem le_length_processed (hall : Encloses g seeds D all) (hfinds : Finds D g.resolver) {levels : Nat}
    (hleft : ∀ k < levels, (Stage.after g o seeds k).frontier.isEmpty = false) :
    levels ≤ (Stage.after g o seeds levels).progress.processed.length := by
  induction levels with
  | zero => exact Nat.zero_le _
  | succ levels ih =>
    have hbefore := ih fun k hk => hleft k (by omega)
    have hlast := hleft levels (by omega)
    have hpos : 0 < (Stage.after g o seeds levels).frontier.keys.length := by
      simpa [SortedMap.keys, SortedMap.isEmpty, List.length_pos_iff] using hlast
    rw [Stage.after_succ, processed_next (bounded_after hall hfinds o levels) hall, List.length_append]
    omega

theorem exists_empty_level (hall : Encloses g seeds D all) (hfinds : Finds D g.resolver) (o : Options) :
    ∃ n ≤ keyCount all, ∀ k, (Stage.after g o seeds k).frontier.isEmpty = true ↔ n ≤ k := by
  have hsome : ∃ n, (Stage.after g o seeds n).frontier.isEmpty = true := by
    -- otherwise more keys would have been looked into than there are
    by_contra hnone
    have hleft : ∀ k < keyCount all + 1, (Stage.after g o seeds k).frontier.isEmpty = false := by
      intro k _
      exact Bool.eq_false_iff.2 fun hk => hnone ⟨k, hk⟩
    have hmany := le_length_processed hall hfinds hleft
    have hfew := (bounded_after hall hfinds o (keyCount all + 1)).length_processed
    omega
  have hleft : ∀ k < Nat.find hsome, (Stage.after g o seeds k).frontier.isEmpty = false :=
    fun k hk => Bool.eq_false_iff.2 (Nat.find_min hsome hk)
  refine ⟨Nat.find hsome, ?_, fun k => ⟨fun hk => Nat.find_min' hsome hk, fun hk => ?_⟩⟩
  · exact Nat.le_trans (le_length_processed hall hfinds hleft) (bounded_after hall hfinds o _).length_processed
  · rw [Stage.after_of_le (Nat.find_spec hsome) hk]
    exact Nat.find_spec hsome

/-- **A search stops at its first empty level.** There is one, with no more levels before it than there are keys among
references that enclose the search; no key is looked into twice in the levels before it, and what is found and kept
when it is reached is what the search gives. -/
theorem search_levels (hall : Encloses g seeds D all) (hfinds : Finds D g.resolver)
    (henough : all.length ≤ (g.outlook seeds).length) (o : Options) :
    ∃ n ≤ keyCount all,
      (∀ k, (Stage.after g o seeds k).frontier.isEmpty = true ↔ n ≤ k) ∧
      ((List.range n).flatMap fun k => (Stage.after g o seeds k).frontier.values.map TypeRef.key).Nodup ∧
      (g.usages o seeds).value =
        ((Stage.after g o seeds n).progress.relations, { g with resolver := (Stage.after g o seeds n).memory }) := by
  obtain ⟨n, hn, hempty⟩ := exists_empty_level hall hfinds o
  have hlevels : n ≤ (g.outlook seeds).length := Nat.le_trans (Nat.le_trans hn (keyCount_le all)) henough
  refine ⟨n, hn, hempty, ?_, ?_⟩
  · exact (processed_after hall hfinds o n).nodup_iff.2 (bounded_after hall hfinds o n).distinct
  · rw [g.usages_value o seeds, Stage.after_of_le ((hempty n).2 (Nat.le_refl n)) hlevels]

/-! ## Registries that know their modules -/

theorem encloses_within (hg : g.Consistent) (seeds : List TypeRef) :
    Encloses g seeds (· ∈ g.declared) (within g seeds) := by
  have hstated : ∀ d ∈ g.declared, ∀ t ∈ d.references, t ∈ within g seeds := fun d hd t ht =>
    List.mem_append_right _ (Registry.parts_mem_references hd ht (TypeRef.self_mem_parts t))
  refine ⟨fun r hr => ?_, fun _ hr _ hp => parts_within hr hp, hstated, fun k d hd => ?_⟩
  · exact List.mem_append_left _ (List.mem_flatMap.2 ⟨r, hr, TypeRef.self_mem_parts r⟩)
  · have hdeclared := Registry.declared_of_mem_indexed (Registry.mem_implementersOf hg hd).1
    exact hstated d hdeclared _ d.self_mem_references

end Usage

namespace Registry

open Usage

/-- **A search ends, and looks into each key once.** There is a first empty level, with no more levels before it than
there are keys among the references given and those of the modules; no key is looked into twice in the levels
before it, and what is found and kept when it is reached is what the search gives. -/
theorem usages_levels {F : TypeRef → Prop} {g : Registry} (hg : Reached F g) (o : Options) (seeds : List TypeRef) :
    ∃ n ≤ keyCount (within g seeds),
      (∀ k, (Stage.after g o seeds k).frontier.isEmpty = true ↔ n ≤ k) ∧
      ((List.range n).flatMap fun k => (Stage.after g o seeds k).frontier.values.map TypeRef.key).Nodup ∧
      (g.usages o seeds).value =
        ((Stage.after g o seeds n).progress.relations, { g with resolver := (Stage.after g o seeds n).memory }) :=
  search_levels (encloses_within hg.grounded.consistent seeds) hg.grounded.finds (length_within_le g seeds) o

/-- The hen of a coop. -/
def hen : TypeRef := .plain "" "Hen" "Coop"

/-- Hens come from eggs, and eggs from hens. -/
def coop : Module where
  name := "Coop"
  types :=
    [{ TypeDef.newClass "" "Hen" "Coop" with base := some (.plain "" "Egg" "Coop") },
      { TypeDef.newClass "" "Egg" "Coop" with fields := [⟨"layer", hen⟩] }]

/-- The coop after its hen was looked up. -/
def brood : Registry := (((empty.add coop).getD empty).ask (Resolver.resolve hen)).value.2

theorem usages_levels_brood :
    keyCount (within brood [hen]) = 2 ∧ (Stage.after brood {} [hen] 1).frontier.isEmpty = false ∧
      ∃ n ≤ keyCount (within brood [hen]),
        (∀ k, (Stage.after brood {} [hen] k).frontier.isEmpty = true ↔ n ≤ k) ∧
        ((List.range n).flatMap fun k => (Stage.after brood {} [hen] k).frontier.values.map TypeRef.key).Nodup ∧
        (brood.usages {} [hen]).value =
          ((Stage.after brood {} [hen] n).progress.relations,
            { brood with resolver := (Stage.after brood {} [hen] n).memory }) := by
  refine ⟨by decide +kernel, by decide +kernel, ?_⟩
  have hreached : Reached (fun _ => True) brood := .resolve (.add .empty rfl) trivial
  exact usages_levels hreached {} [hen]

end Registry

/-! ## Other modules that a resolver knows -/

namespace Resolver

/-- The definitions in all modules that a resolver knows. -/
def declared (s : Resolver) : List TypeDef := s.modules.values.flatMap Module.allTypes

/-- What making modules known, forgetting answers and asking make of a resolver that knows nothing. -/
inductive Made : Resolver → Prop
  | empty : Made empty
  | register {s : Resolver} (m : Module) : Made s → Made (s.register m)
  | clearCache {s : Resolver} : Made s → Made s.clearCache
  | ask {s : Resolver} {α : Type} {q : Resolving α} : Made s → q.Asks → Made (q.after s)

theorem mem_declared_of_definition? {s : Resolver} {scope fullName : String} {d : TypeDef}
    (hd : s.definition? scope fullName = some d) : d ∈ s.declared := by
  obtain ⟨m, hm, hd⟩ := Option.bind_eq_some_iff.1 hd
  have hd := List.mem_of_find?_eq_some hd
  exact List.mem_flatMap.2 ⟨m, List.mem_map_of_mem (SortedMap.mem_entries_of_get? hm), List.mem_reverse.1 hd⟩

theorem finds_clearCache (s : Resolver) : Finds (· ∈ s.declared) s.clearCache where
  kept _ _ hd := by cases hd
  found _ _ _ hd := mem_declared_of_definition? (s := s) hd

/-- A resolver keeps definitions of modules that it knows. -/
theorem Made.finds {s : Resolver} (h : Made s) : Finds (· ∈ s.declared) s := by
  induction h with
  | empty => exact finds_clearCache Resolver.empty
  | @register s m _ _ => exact finds_clearCache { s with modules := s.modules.insert m.name m }
  | @clearCache s _ _ => exact finds_clearCache s
  | @ask s _ q _ hq ih =>
    have hsame : (q.after s).modules = s.modules := hq.respects sameModules_asking s
    have hafter := hq.respects (finds_asking (· ∈ s.declared)) s ih
    rwa [declared, ← hsame] at hafter

end Resolver

namespace Usage

variable {g : Registry} {seeds : List TypeRef}

theorem mem_outlook_iff {r : TypeRef} :
    r ∈ g.outlook seeds ↔ r ∈ within g seeds ∨ r ∈ Module.referencesIn g.resolver.modules.values ∨
      ∃ d ∈ g.index.interfaces.values.flatMap (·.values), d.reference = r := by
  rw [Registry.outlook, List.mem_append, List.mem_append, List.mem_map, or_assoc, within]

/-- A type that is filed under a key is filed. -/
theorem mem_filed_of_mem_implementersOf {k : TypeKey} {d : TypeDef} (hd : d ∈ g.implementersOf k) :
    d ∈ g.index.interfaces.values.flatMap (·.values) := by
  unfold Registry.implementersOf at hd
  cases hset : g.index.interfaces.get? k with
  | none => simp [hset] at hd
  | some ds =>
    rw [hset] at hd
    exact List.mem_flatMap.2 ⟨ds, List.mem_map_of_mem (SortedMap.mem_entries_of_get? hset), hd⟩

/-- **The outlook encloses a search**, whatever the resolver knows. -/
theorem encloses_outlook (g : Registry) (seeds : List TypeRef) :
    Encloses g seeds (· ∈ g.resolver.declared) (g.outlook seeds) where
  seeds r hr :=
    mem_outlook_iff.2 (.inl (List.mem_append_left _ (List.mem_flatMap.2 ⟨r, hr, TypeRef.self_mem_parts r⟩)))
  parts r hr p hp := by
    rcases mem_outlook_iff.1 hr with hr | hr | ⟨d, hd, rfl⟩
    · exact mem_outlook_iff.2 (.inl (parts_within hr hp))
    · exact mem_outlook_iff.2 (.inr (.inl (Module.parts_mem_referencesIn_of_mem hr hp)))
    · obtain rfl := List.mem_singleton.1 hp
      exact hr
  stated d hd t ht :=
    mem_outlook_iff.2 (.inr (.inl (Module.parts_mem_referencesIn hd ht (TypeRef.self_mem_parts t))))
  filed k d hd := mem_outlook_iff.2 (.inr (.inr ⟨d, mem_filed_of_mem_implementersOf hd, rfl⟩))

end Usage

namespace Registry

open Usage

/-- **No search is cut off.** Whatever is loaded and filed, and whatever modules the resolver knows, a search has a
first empty level, and what is found and kept when it is reached is what the search gives. -/
theorem usages_not_cut {g : Registry} (hg : g.resolver.Made) (o : Options) (seeds : List TypeRef) :
    ∃ n, (∀ k, (Stage.after g o seeds k).frontier.isEmpty = true ↔ n ≤ k) ∧
      (g.usages o seeds).value =
        ((Stage.after g o seeds n).progress.relations, { g with resolver := (Stage.after g o seeds n).memory }) := by
  obtain ⟨n, -, hempty, -, hvalue⟩ := search_levels (encloses_outlook g seeds) hg.finds (Nat.le_refl _) o
  exact ⟨n, hempty, hvalue⟩

/-- A bird eats a worm, the worm an apple, and the bird is a guest of the apple. -/
def orchard : Module where
  name := "Orchard"
  types :=
    [{ TypeDef.newClass "" "Bird" "Orchard" with fields := [⟨"food", .plain "" "Worm" "Orchard"⟩] },
      { TypeDef.newClass "" "Worm" "Orchard" with fields := [⟨"food", .plain "" "Apple" "Orchard"⟩] },
      { TypeDef.newClass "" "Apple" "Orchard" with fields := [⟨"guest", .plain "" "Bird" "Orchard"⟩] }]

/-- Nothing is loaded, but the resolver knows the orchard. -/
def overTheFence : Registry := { empty with resolver := Resolver.empty.register orchard }

example : overTheFence.resolver.Made ∧ overTheFence.references = [] ∧
    (overTheFence.usages {} [.plain "" "Bird" "Orchard"]).value.1.map Relation.render =
      ["[Bird] -> [Worm] as TYPE_REFERENCE", "[Worm] -> [Apple] as TYPE_REFERENCE",
        "[Apple] -> [Bird] as TYPE_REFERENCE"] :=
  ⟨.register _ .empty, rfl, by decide +kernel⟩

end Registry

end Coupling
