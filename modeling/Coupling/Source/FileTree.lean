/-
Files and directories.

A path leads through the directories on its way, which must be there. Entries of
a directory are listed by name.
-/
import Coupling.Source.Path

namespace Coupling

inductive FileTree where
  | file (content : List UInt8)
  | directory (entries : List (String × FileTree))
  deriving Inhabited

namespace FileTree

/-! ## Contents -/

def entries : FileTree → List (String × FileTree)
  | .file _ => []
  | .directory es => es

/-- What is found under names, one below the other; `above` are the directories passed, nearest
first. The directory on top leads back to itself. -/
def walk (above : List FileTree) : FileTree → List String → Option FileTree
  | t, [] => some t
  | .file _, _ :: _ => none
  | .directory es, name :: names =>
    if name = ".." then
      match above with
      | [] => walk [] (.directory es) names
      | parent :: above => walk above parent names
    else
      match es.lookup name with
      | some t => walk (.directory es :: above) t names
      | none => none

/-- What a path leads to. The empty path leads nowhere. -/
def find? (t : FileTree) (path : String) : Option FileTree :=
  if path = "" then none
  else
    match t.walk [] (Path.names path) with
    | some (.file content) => if Path.endsIdle path then none else some (.file content)
    | found => found

/-- Sets the entry of a name. -/
def setEntry (name : String) (t : FileTree) : List (String × FileTree) → List (String × FileTree)
  | [] => [(name, t)]
  | e :: es => if e.1 = name then (name, t) :: es else e :: setEntry name t es

/-- The way to a place in a tree, last step first: the name of each step and the entries it was taken
among. -/
abbrev Trail := List (String × List (String × FileTree))

/-- The whole tree around what stands at the end of a trail. -/
def rebuild (trail : Trail) (t : FileTree) : FileTree :=
  trail.foldl (fun t (name, es) => .directory (setEntry name t es)) t

/-- A new file or directory in the place of an old one. A directory that is there keeps its
entries. -/
def replace : (old new : FileTree) → FileTree
  | .directory es, .directory [] => .directory es
  | _, new => new

/-- Puts a file or an empty directory under names, with the directories on the way. -/
def putUnder (new : FileTree) (trail : Trail) : FileTree → List String → FileTree
  | old, [] => rebuild trail (replace old new)
  | t, name :: names =>
    if name = ".." then
      match trail with
      | [] => putUnder new [] t names
      | (last, es) :: trail => putUnder new trail (.directory (setEntry last t es)) names
    else
      putUnder new ((name, t.entries) :: trail) ((t.entries.lookup name).getD (.directory [])) names

def put (t : FileTree) (path : String) (new : FileTree) : FileTree :=
  putUnder new [] t (Path.names path)

/-- Takes away what is found under names. -/
def removeUnder (trail : Trail) : FileTree → List String → Option FileTree
  | _, [] =>
    match trail with
    | [] => none
    | (last, es) :: trail => some (rebuild trail (.directory (es.filter (·.1 != last))))
  | t, name :: names =>
    if name = ".." then
      match trail with
      | [] => removeUnder [] t names
      | (last, es) :: trail => removeUnder trail (.directory (setEntry last t es)) names
    else
      match t.entries.lookup name with
      | some inner => removeUnder ((name, t.entries) :: trail) inner names
      | none => none

def remove (t : FileTree) (path : String) : FileTree :=
  (removeUnder [] t (Path.names path)).getD t

/-! ## Listing -/

/-- A file that is listed. -/
structure Listed where
  name : String
  path : String
  deriving DecidableEq

/-- The files of entries, which come by name. -/
def inOrder (groups : List (String × List Listed)) : List Listed :=
  (groups.mergeSort fun a b => (compare a.1 b.1).isLE).flatMap (·.2)

mutual

/-- The file, or the files of a directory if the listing goes `deep`. -/
def listTree (deep : Bool) (path name : String) : FileTree → List Listed
  | .file _ => [⟨name, path⟩]
  | .directory es => if deep then inOrder (listEntries deep path es) else []

/-- The files of each entry. -/
def listEntries (deep : Bool) (path : String) : List (String × FileTree) → List (String × List Listed)
  | [] => []
  | (name, t) :: es => (name, listTree deep (Path.join path name) name t) :: listEntries deep path es

end

/-- The files of a directory and, if the listing goes `deep`, of those below it. -/
def list (deep : Bool) (path : String) (es : List (String × FileTree)) : List Listed :=
  inOrder (listEntries deep path es)

end FileTree

end Coupling
