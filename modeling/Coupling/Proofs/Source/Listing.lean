/-
The files of a directory.

A proper tree is one that a file system can hold: the entries of a directory have
distinct names, and none that a path would take for something else. `Holds` says
where its files are, by the names on the way to each. Listing the directory gives
these ways in the order in which the entries of each directory come by name
(`exists_traversal`), and the path of each leads to the file (`find?_follow`).
-/
import Coupling.Proofs.OctetOrder
import Coupling.Proofs.Source.Paths
import Coupling.Source.FileTree
import Mathlib.Data.List.Basic
import Mathlib.Tactic.Choose

namespace Coupling.FileTree

open Coupling.Path (IsName follow)

/-- A tree that a file system can hold. -/
inductive Proper : FileTree → Prop
  | file (content : List UInt8) : Proper (.file content)
  | directory {es : List (String × FileTree)} (distinct : (es.map (·.1)).Nodup) (named : ∀ e ∈ es, IsName e.1)
      (below : ∀ e ∈ es, Proper e.2) : Proper (.directory es)

/-- Names lead to a file, one below the other. -/
inductive Holds : FileTree → List String → Prop
  | file (content : List UInt8) : Holds (.file content) []
  | entry {es : List (String × FileTree)} {name : String} {t : FileTree} {way : List String} :
      (name, t) ∈ es → Holds t way → Holds (.directory es) (name :: way)

variable {t u : FileTree} {es : List (String × FileTree)} {way : List String} {path : String}

/-! ## Finding files -/

theorem lookup_of_mem {name : String} (hdistinct : (es.map (·.1)).Nodup) (he : (name, t) ∈ es) :
    es.lookup name = some t := by
  obtain ⟨before, after, rfl⟩ := List.append_of_mem he
  refine List.lookup_eq_some_iff.2 ⟨before, after, rfl, fun e hbefore => bne_iff_ne.2 fun heq => ?_⟩
  rw [List.map_append, List.map_cons, List.nodup_append] at hdistinct
  exact hdistinct.2.2 _ (List.mem_map_of_mem hbefore) name List.mem_cons_self heq.symm

theorem mem_of_lookup {name : String} (h : es.lookup name = some t) : (name, t) ∈ es := by
  obtain ⟨before, after, rfl, -⟩ := List.lookup_eq_some_iff.1 h
  simp

/-- Whatever names lead to in a proper tree is proper. -/
theorem Proper.of_walk {names : List String} {above : List FileTree} (habove : ∀ a ∈ above, Proper a) (ht : t.Proper)
    (h : walk above t names = some u) : u.Proper := by
  fun_induction walk above t names with
  | case1 above t => exact Option.some.inj h ▸ ht
  | case2 => cases h
  | case3 es names ih => exact ih habove ht h
  | case4 es names parent above ih =>
    exact ih (fun a ha => habove a (List.mem_cons_of_mem _ ha)) (habove parent List.mem_cons_self) h
  | case5 above es name names hname t hlookup ih =>
    cases ht with
    | directory distinct named below =>
      refine ih (fun a ha => ?_) (below _ (mem_of_lookup hlookup)) h
      rcases List.mem_cons.1 ha with rfl | ha
      · exact .directory distinct named below
      · exact habove a ha
  | case6 => cases h

/-- Names that follow others are followed from where those lead to. -/
theorem walk_append {names : List String} {above : List FileTree} (h : walk above t names = some u) :
    ∃ above', ∀ more, walk above t (names ++ more) = walk above' u more := by
  fun_induction walk above t names with
  | case1 above t => exact ⟨above, fun more => by rw [List.nil_append, Option.some.inj h]⟩
  | case2 => cases h
  | case3 es names ih =>
    obtain ⟨above', hmore⟩ := ih h
    exact ⟨above', fun more => by rw [← hmore more, List.cons_append, walk.eq_def]; simp⟩
  | case4 es names parent above ih =>
    obtain ⟨above', hmore⟩ := ih h
    exact ⟨above', fun more => by rw [← hmore more, List.cons_append, walk.eq_def]; simp⟩
  | case5 above es name names hname t hlookup ih =>
    obtain ⟨above', hmore⟩ := ih h
    exact ⟨above', fun more => by rw [← hmore more, List.cons_append, walk.eq_def]; simp [hname, hlookup]⟩
  | case6 => cases h

namespace Holds

theorem isName (ht : t.Proper) (h : t.Holds way) : ∀ name ∈ way, IsName name := by
  induction h with
  | file => simp
  | entry he _ ih =>
    cases ht with
    | directory _ named below =>
      intro name hname
      rcases List.mem_cons.1 hname with rfl | hname
      · exact named _ he
      · exact ih (below _ he) name hname

theorem walk (ht : t.Proper) (h : t.Holds way) (above : List FileTree) :
    ∃ content, t.walk above way = some (.file content) := by
  induction h generalizing above with
  | file content => exact ⟨content, by rw [FileTree.walk]⟩
  | @entry es name t way he _ ih =>
    cases ht with
    | directory distinct named below =>
      obtain ⟨content, hfound⟩ := ih (below _ he) (.directory es :: above)
      refine ⟨content, ?_⟩
      rw [FileTree.walk.eq_def]
      simp [(named _ he).ne_dots, lookup_of_mem distinct he, hfound]

theorem ne_nil (h : (directory es).Holds way) : way ≠ [] := by
  cases h
  exact List.cons_ne_nil _ _

end Holds

theorem ne_empty_of_find? (h : t.find? path = some u) : path ≠ "" := by
  rintro rfl
  simp [find?] at h

theorem walk_of_find? (h : t.find? path = some u) : t.walk [] (Path.names path) = some u := by
  rw [find?, if_neg (ne_empty_of_find? h)] at h
  cases hwalk : t.walk [] (Path.names path) with
  | none => rw [hwalk] at h; cases h
  | some found =>
    rw [hwalk] at h
    cases found with
    | file content =>
      simp only at h
      split at h
      · cases h
      · exact h
    | directory es => exact h

/-- **The path that goes on by the names of a file leads to it.** -/
theorem find?_follow (ht : t.Proper) (hroot : t.find? path = some (.directory es)) (hway : (directory es).Holds way) :
    ∃ content, t.find? (follow path way) = some (.file content) := by
  have hwalk := walk_of_find? hroot
  have hproper : (directory es).Proper := ht.of_walk (by simp) hwalk
  have hnames := hway.isName hproper
  obtain ⟨above, hmore⟩ := walk_append hwalk
  obtain ⟨content, hfile⟩ := hway.walk hproper above
  refine ⟨content, ?_⟩
  rw [find?, if_neg (Path.follow_ne_empty (ne_empty_of_find? hroot) hnames), Path.names_follow hnames, hmore way, hfile]
  simp [Path.endsIdle_follow hway.ne_nil hnames]

/-! ## The order of ways -/

/-- One way comes before another: where they part, in one directory, it takes the entry whose name has the smaller
octets. -/
def Precedes (v w : List String) : Prop := ∃ shared a b v' w',
  v = shared ++ a :: v' ∧ w = shared ++ b :: w' ∧ Json.octets a < Json.octets b

theorem precedes_of_lt {a b : String} (h : Json.octets a < Json.octets b) (v w : List String) :
    Precedes (a :: v) (b :: w) := ⟨[], a, b, v, w, rfl, rfl, h⟩

namespace Precedes

variable {v w : List String}

theorem cons (h : Precedes v w) (name : String) : Precedes (name :: v) (name :: w) := by
  obtain ⟨shared, a, b, v', w', rfl, rfl, hlt⟩ := h
  exact ⟨name :: shared, a, b, v', w', rfl, rfl, hlt⟩

theorem ne (h : Precedes v w) : v ≠ w := by
  obtain ⟨shared, a, b, v', w', rfl, rfl, hlt⟩ := h
  intro heq
  have hab : a = b := (List.cons.inj (List.append_cancel_left heq)).1
  exact List.lt_irrefl _ (hab ▸ hlt)

end Precedes

/-- Entries by their names. -/
def byName {β : Type} (es : List (String × β)) : List (String × β) := es.mergeSort fun a b => (compare a.1 b.1).isLE

theorem byName_perm {β : Type} (es : List (String × β)) : (byName es).Perm es := List.mergeSort_perm _ _

theorem lt_of_compare {a b : String} (hle : (compare a b).isLE = true) (hne : a ≠ b) : a < b := by
  cases hcompare : compare a b with
  | lt => exact compareOfLessAndEq_eq_lt.1 hcompare
  | eq => exact absurd (Std.LawfulEqCmp.eq_of_compare hcompare) hne
  | gt => simp [hcompare] at hle

theorem isLE_or_isLE (a b : String) : ((compare a b).isLE || (compare b a).isLE) = true := by
  cases hcompare : compare a b with
  | lt => rfl
  | eq => rfl
  | gt => simp [Std.OrientedCmp.lt_of_gt hcompare]

theorem pairwise_byName {β : Type} {es : List (String × β)} (hdistinct : (es.map (·.1)).Nodup) :
    (byName es).Pairwise fun a b => Json.octets a.1 < Json.octets b.1 := by
  have hle : (byName es).Pairwise fun a b => (compare a.1 b.1).isLE = true := by
    rw [byName]
    refine List.pairwise_mergeSort ?_ ?_ es
    · intro a b c hab hbc
      exact Std.TransCmp.isLE_trans hab hbc
    · intro a b
      exact isLE_or_isLE a.1 b.1
  have hne : (byName es).Pairwise fun a b => a.1 ≠ b.1 :=
    List.pairwise_map.1 (((byName_perm es).map _).nodup_iff.2 hdistinct)
  exact (hle.and hne).imp fun h => Json.octets_lt_octets (lt_of_compare h.1 h.2)

/-! ## Listing -/

/-- The file at the end of a way that starts at a path; `name` is its name if the way is empty. -/
def listed (path name : String) (way : List String) : Listed := ⟨way.getLastD name, follow path way⟩

theorem listed_cons (path name first : String) (way : List String) :
    listed path name (first :: way) = listed (Path.join path first) first way := by
  rw [listed, List.getLastD_cons, listed]
  rfl

theorem listEntries_eq (deep : Bool) (path : String) (es : List (String × FileTree)) :
    listEntries deep path es = es.map fun e => (e.1, listTree deep (Path.join path e.1) e.1 e.2) := by
  induction es with
  | nil => rw [listEntries, List.map_nil]
  | cons e es ih => rw [listEntries, ih, List.map_cons]

/-- A directory is listed entry by entry. -/
theorem list_eq (deep : Bool) (path : String) (es : List (String × FileTree)) :
    list deep path es = (byName es).flatMap fun e => listTree deep (Path.join path e.1) e.1 e.2 := by
  have hsorted : (byName es).map (fun e => (e.1, listTree deep (Path.join path e.1) e.1 e.2)) =
      (es.map fun e => (e.1, listTree deep (Path.join path e.1) e.1 e.2)).mergeSort fun a b => (compare a.1 b.1).isLE :=
    List.map_mergeSort fun _ _ _ _ => rfl
  rw [list, listEntries_eq, inOrder, ← hsorted, List.flatMap_map]

/-- The ways to the files of a tree, in their order. -/
structure Traversal (t : FileTree) (ways : List (List String)) : Prop where
  mem_iff : ∀ way, way ∈ ways ↔ t.Holds way
  ordered : ways.Pairwise Precedes

/-- The ways through entries, by name, when those below each are given. -/
def through (ways : String × FileTree → List (List String)) (es : List (String × FileTree)) : List (List String) :=
  (byName es).flatMap fun e => (ways e).map (e.1 :: ·)

section Entries

variable {ways : String × FileTree → List (List String)}

theorem traversal_through (hes : (directory es).Proper) (hways : ∀ e ∈ es, Traversal e.2 (ways e)) :
    Traversal (directory es) (through ways es) := by
  cases hes with
  | directory distinct named below =>
    have hmem : ∀ e ∈ byName es, e ∈ es := fun e he => (byName_perm es).mem_iff.1 he
    refine ⟨fun way => ?_, ?_⟩
    · simp only [through, List.mem_flatMap, List.mem_map, (byName_perm es).mem_iff]
      constructor
      · rintro ⟨e, he, w, hw, rfl⟩
        exact .entry he (((hways e he).mem_iff w).1 hw)
      · intro hway
        cases hway with
        | entry he hw => exact ⟨_, he, _, ((hways _ he).mem_iff _).2 hw, rfl⟩
    · refine List.pairwise_flatMap.2 ⟨fun e he => ?_, (pairwise_byName distinct).imp fun {d e} hlt => ?_⟩
      · exact List.pairwise_map.2 ((hways e (hmem e he)).ordered.imp fun h => h.cons e.1)
      · intro v hv w hw
        obtain ⟨v', -, rfl⟩ := List.mem_map.1 hv
        obtain ⟨w', -, rfl⟩ := List.mem_map.1 hw
        exact precedes_of_lt hlt v' w'

theorem not_isEmpty_of_mem_through (hway : way ∈ through ways es) : way.isEmpty = false := by
  obtain ⟨e, -, hway⟩ := List.mem_flatMap.1 hway
  obtain ⟨w, -, rfl⟩ := List.mem_map.1 hway
  rfl

/-- Listing gives the ways through the entries, of those below each what is listed there. -/
theorem list_through {deep : Bool} {p q : List String → Bool} (hpq : ∀ name way, p (name :: way) = q way)
    (hways : ∀ e ∈ es, ∀ path name, listTree deep path name e.2 = ((ways e).filter q).map (listed path name))
    (path name : String) : list deep path es = ((through ways es).filter p).map (listed path name) := by
  rw [list_eq, through, List.filter_flatMap, List.map_flatMap]
  refine List.flatMap_congr fun e he => ?_
  have hp : p ∘ (e.1 :: ·) = q := funext fun way => hpq e.1 way
  have hlisted : listed path name ∘ (e.1 :: ·) = listed (Path.join path e.1) e.1 := funext (listed_cons path name e.1)
  rw [hways e ((byName_perm es).mem_iff.1 he), List.filter_map, hp, List.map_map, hlisted]

end Entries

/-- Listing a tree gives the ways to its files; if it does not go deep, only a file itself. -/
theorem exists_traversal (ht : t.Proper) : ∃ ways, Traversal t ways ∧ ∀ deep path name,
    listTree deep path name t = (ways.filter fun way => deep || way.isEmpty).map (listed path name) := by
  induction ht with
  | file content =>
    refine ⟨[[]], ⟨fun way => ?_, List.pairwise_singleton _ _⟩, fun deep path name => ?_⟩
    · rw [List.mem_singleton]
      constructor
      · rintro rfl
        exact .file content
      · intro hway
        cases hway
        rfl
    · rw [listTree]
      simp [listed, follow]
  | @directory es distinct named below ih =>
    choose! ways hways using ih
    refine ⟨through ways es, traversal_through (.directory distinct named below) fun e he => (hways e he).1, ?_⟩
    intro deep path name
    rw [listTree]
    cases deep with
    | true =>
      exact list_through (fun _ _ => rfl) (fun e he => (hways e he).2 true) path name
    | false =>
      have hnone : (through ways es).filter (fun way => false || way.isEmpty) = [] :=
        List.filter_eq_nil_iff.2 fun way hway => by simp [not_isEmpty_of_mem_through hway]
      rw [hnone, if_neg Bool.false_ne_true, List.map_nil]

/-- **Listing a directory gives the ways to its files in their order**; if it does not go deep, those of one name. -/
theorem exists_listing (hes : (directory es).Proper) : ∃ ways, Traversal (directory es) ways ∧ ∀ deep path name,
    list deep path es = (ways.filter fun way => deep || way.length == 1).map (listed path name) := by
  have hbelow : ∀ e ∈ es, e.2.Proper := by
    cases hes with
    | directory _ _ below => exact below
  choose! ways hways using fun e he => exists_traversal (hbelow e he)
  refine ⟨through ways es, traversal_through hes fun e he => (hways e he).1, fun deep path name => ?_⟩
  refine list_through (fun _ way => ?_) (fun e he => (hways e he).2 deep) path name
  cases way <;> rfl

end Coupling.FileTree
