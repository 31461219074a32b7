/-
What a directory scan finds.

`IsPiece` says which masks are written in a list of texts, and `Wants` which names
they ask for. A scan of a directory gives the paths of the files below it with such
names, each once and in the order of the listing; a scan that does not go deep gives
those of them that are in the directory itself. How the masks are spread over the
texts makes no difference (`candidates_exact`).
-/
import Coupling.Proofs.Outcome
import Coupling.Proofs.Source.Listing
import Coupling.Source
import Mathlib.Data.List.Nodup

namespace Coupling

/-! ## Masks -/

namespace Mask

/-- A mask that is written in texts: what stands between semicolons there, without the white space around it, if
anything is left. -/
def IsPiece (texts : List String) (piece : List Char) : Prop :=
  ∃ text ∈ texts, ∃ part ∈ text.toList.splitOn ';', piece = Text.trim part ∧ piece ≠ []

/-- A name is asked for by the masks of texts: one of them matches it, or there are none. -/
def Wants (texts : List String) (name : String) : Prop :=
  (∀ piece, ¬ IsPiece texts piece) ∨
    ∃ piece mask, IsPiece texts piece ∧ parse piece = .ok mask ∧ mask.isMatch name = true

variable {texts texts' : List String} {masks : List Mask}

theorem mem_pieces {piece : List Char} : piece ∈ pieces texts ↔ IsPiece texts piece := by
  simp only [pieces, Text.splitOn_eq, List.mem_filter, List.mem_map, List.mem_flatMap]
  constructor
  · rintro ⟨⟨part, ⟨text, htext, hpart⟩, rfl⟩, hne⟩
    exact ⟨text, htext, part, hpart, rfl, by simpa using hne⟩
  · rintro ⟨text, htext, part, hpart, rfl, hne⟩
    exact ⟨⟨part, ⟨text, htext, hpart⟩, rfl⟩, by simpa using hne⟩

theorem isEmpty_iff_of_compile (h : compile texts = .ok masks) :
    masks.isEmpty = true ↔ ∀ piece, ¬ IsPiece texts piece := by
  rw [List.isEmpty_iff, ← List.length_eq_zero_iff, ← (forall₂_of_mapM h).length_eq, List.length_eq_zero_iff,
    List.eq_nil_iff_forall_not_mem]
  simp only [mem_pieces]

/-- Compiled masks match the names that are asked for. -/
theorem matches_iff_of_compile (h : compile texts = .ok masks) (name : String) :
    (masks.isEmpty || masks.any (·.isMatch name)) = true ↔ Wants texts name := by
  rw [Bool.or_eq_true, List.any_eq_true, isEmpty_iff_of_compile h, Wants]
  refine or_congr_right ⟨?_, ?_⟩
  · rintro ⟨mask, hmask, hmatch⟩
    obtain ⟨piece, hpiece, hparse⟩ := (mem_iff_of_mapM h).1 hmask
    exact ⟨piece, mask, mem_pieces.1 hpiece, hparse, hmatch⟩
  · rintro ⟨piece, mask, hpiece, hparse, hmatch⟩
    exact ⟨mask, (mem_iff_of_mapM h).2 ⟨piece, mem_pieces.2 hpiece, hparse⟩, hmatch⟩

section SamePieces

variable (hsame : ∀ piece, IsPiece texts' piece ↔ IsPiece texts piece)
include hsame

theorem compile_of_same_pieces (h : compile texts = .ok masks) : Succeeds (compile texts') := by
  refine succeeds_mapM.2 fun piece hpiece => ?_
  have hall := succeeds_mapM.1 ⟨masks, h⟩
  exact hall piece (mem_pieces.2 ((hsame piece).1 (mem_pieces.1 hpiece)))

theorem wants_iff_of_same_pieces (name : String) : Wants texts' name ↔ Wants texts name := by
  simp only [Wants, hsame]

end SamePieces

end Mask

/-! ## Scans -/

namespace ModuleSource

open Coupling.FileTree (Holds Precedes Proper)

variable {tree : FileTree} {path : String} {es : List (String × FileTree)} {texts : List String} {masks : List Mask}

theorem candidatesIn_eq (deep : Bool) (hroot : tree.find? path = some (.directory es))
    (hmasks : Mask.compile texts = .ok masks) :
    candidatesIn tree deep path texts = pure (.ok (((FileTree.list deep path es).filter fun f =>
      masks.isEmpty || masks.any (·.isMatch f.name)).map (·.path))) := by
  rw [candidatesIn, hmasks, hroot]

/-- A scan in which masks are spread over texts in another way gives the same. -/
theorem candidatesIn_of_same_pieces {texts' : List String} (hroot : tree.find? path = some (.directory es))
    (hmasks : Mask.compile texts = .ok masks) (hsame : ∀ piece, Mask.IsPiece texts' piece ↔ Mask.IsPiece texts piece)
    (deep : Bool) : candidatesIn tree deep path texts' = candidatesIn tree deep path texts := by
  obtain ⟨masks', hmasks'⟩ := Mask.compile_of_same_pieces hsame hmasks
  rw [candidatesIn_eq deep hroot hmasks', candidatesIn_eq deep hroot hmasks]
  have hfilter (name : String) : (masks'.isEmpty || masks'.any (·.isMatch name)) =
      (masks.isEmpty || masks.any (·.isMatch name)) := by
    rw [Bool.eq_iff_iff, Mask.matches_iff_of_compile hmasks', Mask.matches_iff_of_compile hmasks]
    exact Mask.wants_iff_of_same_pieces hsame name
  simp only [hfilter]

/-- What a scan of a directory gives, by the ways from there to the files it finds. -/
structure Scanned (tree : FileTree) (reader : ModuleReader) (path : String) (es : List (String × FileTree))
    (texts : List String) (ways : List (List String)) : Prop where
  /-- They lead to all files with a name that is asked for. -/
  mem_iff : ∀ way, way ∈ ways ↔ (FileTree.directory es).Holds way ∧ ∃ name ∈ way.getLast?, Mask.Wants texts name
  ordered : ways.Pairwise Precedes
  /-- No path is there twice, however it is written. -/
  distinct : ((ways.map (Path.follow path)).map Path.key).Nodup
  found : ∀ way ∈ ways, ∃ content, tree.find? (Path.follow path way) = some (.file content)
  deep : (directory tree reader true).candidates path texts = pure (.ok (ways.map (Path.follow path)))
  flat : (directory tree reader false).candidates path texts =
    pure (.ok ((ways.filter (·.length == 1)).map (Path.follow path)))
  pieces : ∀ texts', (∀ piece, Mask.IsPiece texts' piece ↔ Mask.IsPiece texts piece) → ∀ deep,
    (directory tree reader deep).candidates path texts' = (directory tree reader deep).candidates path texts

/-- Paths that go on by different ways are different paths. -/
theorem nodup_keys_follow {ways : List (List String)} (hpath : path ≠ "")
    (hnames : ∀ way ∈ ways, ∀ name ∈ way, Path.IsName name) (hnodup : ways.Nodup) :
    ((ways.map (Path.follow path)).map Path.key).Nodup := by
  have hkeys : (ways.map (Path.follow path)).map Path.key = ways.map (Path.key path ++ ·) := by
    rw [List.map_map]
    exact List.map_congr_left fun way hway => Path.key_follow hpath (hnames way hway)
  rw [hkeys]
  exact List.Nodup.map (fun _ _ => List.append_cancel_left) hnodup

/-- **A scan finds the files that are asked for**, each once and in the order of the names on the ways to them; one that
does not go deep finds those in the directory itself; and all that counts of the texts is which masks are in them. -/
theorem candidates_exact (reader : ModuleReader) (htree : tree.Proper) (hroot : tree.find? path = some (.directory es))
    (hmasks : Mask.compile texts = .ok masks) : ∃ ways, Scanned tree reader path es texts ways := by
  have hproper : (FileTree.directory es).Proper := htree.of_walk (by simp) (FileTree.walk_of_find? hroot)
  obtain ⟨all, htraversal, hlist⟩ := FileTree.exists_listing hproper
  -- the name of a file is the last one on the way to it, so a filter of files is one of ways
  let asked : List String → Bool := fun way => masks.isEmpty || masks.any (·.isMatch (way.getLastD ""))
  have hcandidates (deep : Bool) : candidatesIn tree deep path texts =
      pure (.ok (((all.filter asked).filter fun way => deep || way.length == 1).map (Path.follow path))) := by
    rw [candidatesIn_eq deep hroot hmasks, hlist deep path "", List.filter_map, List.map_map, List.filter_comm]
    rfl
  have hholds : ∀ way ∈ all.filter asked, (FileTree.directory es).Holds way := fun way hway =>
    (htraversal.mem_iff way).1 (List.mem_of_mem_filter hway)
  have hordered : (all.filter asked).Pairwise Precedes := htraversal.ordered.filter asked
  refine ⟨all.filter asked, ?_, hordered, ?_, ?_, ?_, hcandidates false, ?_⟩
  · intro way
    rw [List.mem_filter, htraversal.mem_iff, Mask.matches_iff_of_compile hmasks]
    refine and_congr_right fun hway => ?_
    rw [List.getLastD_eq_getLast?, List.getLast?_eq_some_getLast hway.ne_nil]
    simp
  · refine nodup_keys_follow (FileTree.ne_empty_of_find? hroot) (fun way hway => (hholds way hway).isName hproper) ?_
    exact hordered.imp fun h => h.ne
  · exact fun way hway => FileTree.find?_follow htree hroot (hholds way hway)
  · have hall : (all.filter asked).filter (fun way => true || way.length == 1) = all.filter asked :=
      List.filter_eq_self.2 fun _ _ => rfl
    exact (hcandidates true).trans (by rw [hall])
  · exact fun texts' hsame deep => candidatesIn_of_same_pieces hroot hmasks hsame deep

/-- A directory of a tree, in which another one stands between files. -/
def depot : List (String × FileTree) :=
  [("b.dll", .file [1]), ("back", .directory [("c.exe", .file []), ("notes", .file [2])]), ("a.txt", .file [])]

theorem proper_depot : (FileTree.directory [("lib", .directory depot)]).Proper := by
  have hfiles : (FileTree.directory [("c.exe", .file []), ("notes", .file [2])]).Proper :=
    .directory (by decide) (by simp [Path.isName_iff]) (by simp [Proper.file])
  have hdepot : (FileTree.directory depot).Proper :=
    .directory (by decide) (by simp [depot, Path.isName_iff]) (by simp [depot, Proper.file, hfiles])
  exact .directory (by decide) (by simp [Path.isName_iff]) (by simp [hdepot])

theorem candidates_exact_depot : (FileTree.directory [("lib", .directory depot)]).Proper ∧
    (FileTree.directory [("lib", .directory depot)]).find? "lib/" = some (.directory depot) ∧
    Mask.compile ["*.dll; ", ";?.exe"] = .ok [⟨[.anyRun, .char '.', .char 'd', .char 'l', .char 'l']⟩,
      ⟨[.anyChar, .char '.', .char 'e', .char 'x', .char 'e']⟩] ∧
    ∃ ways, Scanned (.directory [("lib", .directory depot)]) .named "lib/" depot ["*.dll; ", ";?.exe"] ways :=
  ⟨proper_depot, rfl, rfl, candidates_exact .named proper_depot rfl rfl⟩

end ModuleSource

end Coupling
