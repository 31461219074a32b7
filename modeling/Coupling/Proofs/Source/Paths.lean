/-
Paths that are followed further.

A path goes on with a name behind a slash, of which there is one already where the
path ends with it. Either way its names are those of the path and then the new one
(`names_join`), and so is its key (`key_join`): paths that go on from one place by
different names are different.
-/
import Coupling.Proofs.Cutting
import Coupling.Source.Path
import Mathlib.Tactic.MkIffOfInductiveProp

namespace Coupling.Path

/-- A name that an entry of a directory can have. -/
@[mk_iff]
structure IsName (name : String) : Prop where
  ne_empty : name ≠ ""
  ne_dot : name ≠ "."
  ne_dots : name ≠ ".."
  no_slash : '/' ∉ name.toList

/-! ## Pieces -/

theorem pieces_slash (front rest : String) : pieces (front ++ "/" ++ rest) = pieces front ++ pieces rest := by
  have hchars : (front ++ "/" ++ rest).toList = front.toList ++ '/' :: rest.toList := by simp
  simp only [pieces, hchars, Text.splitOn_eq, List.splitOn_append_cons_self, List.map_append]

theorem pieces_of_no_slash {name : String} (h : '/' ∉ name.toList) : pieces name = [name] := by
  rw [pieces, Text.splitOn_eq, List.splitOn_eq_singleton h, List.map_singleton, String.ofList_toList]

theorem pieces_ne_nil (path : String) : pieces path ≠ [] := by
  rw [pieces, Text.splitOn_eq, ne_eq, List.map_eq_nil_iff]
  exact List.splitOn_ne_nil '/' path.toList

theorem endsWith_slash_iff (path : String) : path.endsWith "/" = true ↔ ∃ front, path = front ++ "/" := by
  rw [String.endsWith_eq_endsWith_toSlice, String.Slice.endsWith_string_iff, String.copy_toSlice]
  constructor
  · rintro ⟨front, hfront⟩
    exact ⟨String.ofList front, String.toList_injective (by simp [← hfront])⟩
  · rintro ⟨front, rfl⟩
    exact ⟨front.toList, by simp⟩

/-- A name is a new piece, in the place of an empty one if there is one at the end. -/
theorem pieces_join {name : String} (hname : IsName name) (path : String) : ∃ fronts, fronts ≠ [] ∧
    pieces (join path name) = fronts ++ [name] ∧ (pieces path = fronts ∨ pieces path = fronts ++ [""]) := by
  unfold join
  split
  · rename_i hslash
    obtain ⟨front, rfl⟩ := (endsWith_slash_iff path).1 hslash
    refine ⟨pieces front, pieces_ne_nil front, ?_, .inr ?_⟩
    · rw [pieces_slash, pieces_of_no_slash hname.no_slash]
    · have hempty := pieces_slash front ""
      rwa [String.append_empty, pieces_of_no_slash (by simp : '/' ∉ "".toList)] at hempty
  · refine ⟨pieces path, pieces_ne_nil path, ?_, .inl rfl⟩
    rw [pieces_slash, pieces_of_no_slash hname.no_slash]

/-! ## Names and keys -/

theorem IsName.isIdle_eq {name : String} (h : IsName name) : isIdle name = false := by
  simp [isIdle, h.ne_empty, h.ne_dot]

theorem names_join {name : String} (hname : IsName name) (path : String) :
    names (join path name) = names path ++ [name] := by
  obtain ⟨fronts, -, hjoin, hpath⟩ := pieces_join hname path
  have hidle : isIdle "" = true := rfl
  rw [names, hjoin, names, List.filter_append]
  rcases hpath with hpath | hpath <;> simp [hpath, hname.isIdle_eq, hidle]

theorem endsIdle_join {name : String} (hname : IsName name) (path : String) : endsIdle (join path name) = false := by
  obtain ⟨fronts, -, hjoin, -⟩ := pieces_join hname path
  simp [endsIdle, hjoin, hname.isIdle_eq]

theorem eq_empty_of_pieces {path : String} (h : pieces path = [""]) : path = "" := by
  rw [pieces, Text.splitOn_eq] at h
  obtain ⟨piece, hpieces, hpiece⟩ := List.map_eq_singleton_iff.1 h
  have hpath : ['/'].intercalate (path.toList.splitOn '/') = path.toList := List.intercalate_splitOn '/'
  rw [hpieces, List.intercalate_singleton] at hpath
  rw [← hpiece, hpath, String.ofList_toList]

/-- How a key tells where its path begins. -/
def start : List String → List String
  | "" :: _ :: _ => ["/"]
  | "." :: _ => ["."]
  | _ => []

theorem key_eq (path : String) : key path = start (pieces path) ++ names path := by
  unfold key
  split
  · rename_i hpieces
    rw [hpieces]
    rfl
  · rename_i hpieces
    rw [hpieces]
    rfl
  · rename_i hslash hdot
    have hnone : start (pieces path) = [] := by
      unfold start
      split
      · rename_i hpieces
        exact (hslash _ _ hpieces).elim
      · rename_i hpieces
        exact (hdot _ hpieces).elim
      · rfl
    rw [hnone, List.nil_append]

theorem start_cons_cons (first second second' : String) (rest rest' : List String) :
    start (first :: second :: rest) = start (first :: second' :: rest') := by
  by_cases hempty : first = ""
  · rw [hempty]
    rfl
  · by_cases hdot : first = "."
    · rw [hdot]
      rfl
    · simp [start, hempty, hdot]

theorem start_singleton {first : String} (h : first ≠ "") (second : String) (rest : List String) :
    start [first] = start (first :: second :: rest) := by
  by_cases hdot : first = "."
  · rw [hdot]
    rfl
  · simp [start, h, hdot]

/-- **The key goes on with the name.** -/
theorem key_join {path name : String} (hpath : path ≠ "") (hname : IsName name) :
    key (join path name) = key path ++ [name] := by
  obtain ⟨fronts, hfronts, hjoin, hpieces⟩ := pieces_join hname path
  suffices hstart : start (pieces (join path name)) = start (pieces path) by
    rw [key_eq, key_eq, hstart, names_join hname, List.append_assoc]
  rw [hjoin]
  obtain ⟨first, rest, rfl⟩ := List.exists_cons_of_ne_nil hfronts
  cases rest with
  | nil =>
    rcases hpieces with hpieces | hpieces
    · have hfirst : first ≠ "" := fun heq => hpath (eq_empty_of_pieces (heq ▸ hpieces))
      rw [hpieces]
      exact (start_singleton hfirst name []).symm
    · rw [hpieces]
      exact start_cons_cons _ _ _ _ _
  | cons second rest => rcases hpieces with hpieces | hpieces <;> rw [hpieces] <;> exact start_cons_cons _ _ _ _ _

theorem join_ne_empty {name : String} (hname : IsName name) (path : String) : join path name ≠ "" := by
  intro hempty
  have hnames := names_join hname path
  rw [hempty] at hnames
  exact List.append_ne_nil_of_right_ne_nil _ (List.cons_ne_nil name []) hnames.symm

/-! ## Following names -/

/-- The path that goes on by names, one below the other. -/
def follow (path : String) (way : List String) : String := way.foldl join path

theorem names_follow {way : List String} (hway : ∀ name ∈ way, IsName name) (path : String) :
    names (follow path way) = names path ++ way := by
  induction way generalizing path with
  | nil => simp [follow]
  | cons name way ih =>
    have hnames := ih (fun n hn => hway n (List.mem_cons_of_mem _ hn)) (join path name)
    rw [names_join (hway name List.mem_cons_self), List.append_assoc] at hnames
    exact hnames

theorem key_follow {path : String} {way : List String} (hpath : path ≠ "") (hway : ∀ name ∈ way, IsName name) :
    key (follow path way) = key path ++ way := by
  induction way generalizing path with
  | nil => simp [follow]
  | cons name way ih =>
    have hname := hway name List.mem_cons_self
    have hkey := ih (join_ne_empty hname path) fun n hn => hway n (List.mem_cons_of_mem _ hn)
    rw [key_join hpath hname, List.append_assoc] at hkey
    exact hkey

theorem endsIdle_follow {way : List String} (hne : way ≠ []) (hway : ∀ name ∈ way, IsName name) (path : String) :
    endsIdle (follow path way) = false := by
  rw [follow, ← List.dropLast_concat_getLast hne, List.foldl_append]
  exact endsIdle_join (hway _ (List.getLast_mem hne)) _

theorem follow_ne_empty {way : List String} {path : String} (hpath : path ≠ "") (hway : ∀ name ∈ way, IsName name) :
    follow path way ≠ "" := by
  induction way generalizing path with
  | nil => exact hpath
  | cons name way ih =>
    exact ih (join_ne_empty (hway name List.mem_cons_self) path) fun n hn => hway n (List.mem_cons_of_mem _ hn)

end Coupling.Path
