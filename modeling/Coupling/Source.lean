/-
Where modules come from.

A reader makes a module of the octets of a file; a source lists the files to
read and reads them. A file that cannot be read is reported with the reason and
does not keep others from being read.
-/
import Coupling.Image.Conversion
import Coupling.Log
import Coupling.Source.FileTree
import Coupling.Source.Mask

namespace Coupling

/-- Makes a module of a path and the octets found there. -/
abbrev ModuleReader := String → List UInt8 → Except Error Module

/-- A file that was read, and the module or what is wrong with it. -/
structure LoadCandidate where
  path : String
  module : Except Error Module

structure ModuleSource where
  /-- The files below a path that some mask matches. -/
  candidates : (path : String) → (masks : List String) → Logged (Except Error (List String))
  load : (paths : List String) → List LoadCandidate

namespace ModuleReader

/-- Reads a text that gives a module's name and nothing else. -/
def named : ModuleReader := fun _ octets =>
  match String.fromUTF8? (ByteArray.mk octets.toArray) with
  | none => .error (.other "not a module")
  | some text =>
    match Text.after? "module ".toList text.toList with
    | some name => .ok { name := String.ofList (Text.trim name), types := [] }
    | none => .error (.other "not a module")

end ModuleReader

namespace ModuleSource

/-- Lists the files and reads them. -/
def scan (s : ModuleSource) (path : String) (masks : List String) :
    Logged (Except Error (List LoadCandidate)) := do
  return (← s.candidates path masks).map s.load

/-- The files of a directory that some mask matches; all of them if there are no masks. -/
def candidatesIn (tree : FileTree) (deep : Bool) (path : String) (masks : List String) :
    Logged (Except Error (List String)) := do
  match Mask.compile masks with
  | .error e => return .error e
  | .ok masks =>
    match tree.find? path with
    | some (.directory es) =>
      let listed := (FileTree.list deep path es).filter fun f =>
        masks.isEmpty || masks.any (·.isMatch f.name)
      return .ok (listed.map (·.path))
    | _ =>
      Logged.log (.notADirectory path)
      return .ok []

/-- Reads a file. A module that does not say where it is from gets the path of the file. -/
def readFile (tree : FileTree) (reader : ModuleReader) (path : String) : Except Error Module :=
  match tree.find? path with
  | some (.file []) => .error (.malformed (.emptyFile path))
  | some (.file octets) => do
    let m ← reader path octets
    return { m with path := m.path <|> some path }
  | _ => .error .unreadableFile

/-- The files of a directory, and of those below it if `deep`. -/
def directory (tree : FileTree) (reader : ModuleReader) (deep : Bool) : ModuleSource where
  candidates := candidatesIn tree deep
  load paths := paths.map fun path => ⟨path, readFile tree reader path⟩

end ModuleSource

end Coupling
