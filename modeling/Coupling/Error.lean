/-
What can go wrong, and how it is said.
-/

namespace Coupling

/-- Why an image is not a module. -/
inductive Malformed where
  | moduleWithoutName
  | typeWithoutName (module : String)
  | methodWithoutName (declaring : String)
  | referenceWithoutName
  | instanceWithoutArguments
  | arrayOfRankZero
  | offsetOverflow (mnemonic : String)
  | declaredTwice (type module : String)
  | emptyFile (path : String)
  deriving DecidableEq, Repr

namespace Malformed

def message : Malformed → String
  | .moduleWithoutName => "module image without a name"
  | .typeWithoutName module => "type without a name in module " ++ module
  | .methodWithoutName declaring => "method without a name in " ++ declaring
  | .referenceWithoutName => "type reference without a name"
  | .instanceWithoutArguments => "generic instance without arguments"
  | .arrayOfRankZero => "array with rank 0"
  | .offsetOverflow mnemonic => "instruction offset overflows at " ++ mnemonic
  | .declaredTwice type module => "type " ++ type ++ " is declared twice in module " ++ module
  | .emptyFile path => path ++ " is empty"

end Malformed

/-- Why a file mask is refused. -/
inductive MaskFault where
  | openClass
  | tooManyStars
  | partOfComponent
  deriving DecidableEq, Repr

namespace MaskFault

def message : MaskFault → String
  | .openClass => "invalid range pattern"
  | .tooManyStars => "wildcards are either regular `*` or recursive `**`"
  | .partOfComponent => "recursive wildcards must form a single path component"

end MaskFault

inductive Error where
  | malformed (cause : Malformed)
  /-- A text is not the JSON of an image. -/
  | notAnImage
  /-- A regular expression is refused. -/
  | badPattern
  | badMask (position : Nat) (fault : MaskFault)
  | vertexNotFound (name : String)
  | invalidWeight (cost source target : String)
  /-- A file cannot be read. -/
  | unreadableFile
  | other (message : String)
  deriving DecidableEq, Repr

namespace Error

/-- What an error has to say for itself. -/
def message : Error → String
  | .malformed cause => cause.message
  | .notAnImage => "not a module image"
  | .badPattern => "not a pattern"
  | .badMask position fault =>
    "Pattern syntax error near position " ++ toString position ++ ": " ++ fault.message
  | .vertexNotFound name => name
  | .invalidWeight cost source target =>
    "invalid weight " ++ cost ++ " on edge " ++ source ++ " -> " ++ target
  | .unreadableFile => "file cannot be read"
  | .other message => message

/-- The message with what it is about. -/
def display : Error → String
  | .vertexNotFound name => "Vertex not found in graph - " ++ name
  | .badMask position fault => "Invalid file mask - " ++ (Error.badMask position fault).message
  | .notAnImage => "Invalid module image"
  | .badPattern => "Invalid pattern"
  | e => e.message

end Error

end Coupling
