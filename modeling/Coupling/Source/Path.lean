/-
Paths.

A path is the names on the way to a file with slashes between them. Names that
are empty or a single dot lead nowhere, so paths that differ in them only are
the same; two dots lead back, and count as a name.
-/
import Coupling.SortedMap
import Coupling.Text.Cut

namespace Coupling.Path

def pieces (path : String) : List String := (Text.splitOn '/' path.toList).map String.ofList

/-- Whether a piece of a path leads nowhere. -/
def isIdle (piece : String) : Bool := piece == "" || piece == "."

def names (path : String) : List String := (pieces path).filter (!isIdle ·)

/-- What tells a path from others: its names, and where they begin if that is said. -/
def key (path : String) : List String :=
  match pieces path with
  | "" :: _ :: _ => "/" :: names path
  | "." :: _ => "." :: names path
  | _ => names path

/-- Whether only a directory can be meant. -/
def endsIdle (path : String) : Bool := ((pieces path).getLast?.map isIdle).getD false

def join (path name : String) : String :=
  if path.endsWith "/" then path ++ name else path ++ "/" ++ name

/-- The pieces of a path without those at its ends that lead nowhere. -/
def trim (pieces : List String) : List String :=
  ((pieces.dropWhile isIdle).reverse.dropWhile isIdle).reverse

/-- The way from a directory of one name to a path below it. -/
def below? (directory path : String) : Option String :=
  match pieces path with
  | [] => none
  | name :: rest => if name = directory then some ("/".intercalate (trim rest)) else none

end Path

/-- Paths, each as it was first written. -/
abbrev PathSet := SortedMap (List String) String

namespace PathSet

def contains (s : PathSet) (path : String) : Bool := SortedMap.contains s (Path.key path)

def add (s : PathSet) (path : String) : PathSet := s.insertNew (Path.key path) path

end PathSet

end Coupling
