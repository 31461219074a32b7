/-
File masks.

A mask is matched against a whole file name. `?` is any character, `*` any
characters, `[…]` one of the characters listed, `[!…]` none of them; `**` stands
for any directories and must be a path component of its own.
-/
import Coupling.Error
import Coupling.Text.Blank
import Coupling.Text.Cut

namespace Coupling

namespace Mask

inductive Token where
  | char (c : Char)
  | anyChar
  | anyRun
  /-- Any number of directories, with the slashes after them. -/
  | directories
  /-- One character in one of the ranges, or in none of them. -/
  | charIn (ranges : List (Char × Char)) (negated : Bool)
  deriving DecidableEq

/-! ## Matching -/

/-- Whether a token for one character stands for `c`. -/
def Token.accepts (c : Char) : Token → Bool
  | .char d => c == d
  | .anyChar => true
  | .charIn ranges negated => (ranges.any fun (lo, hi) => lo ≤ c && c ≤ hi) != negated
  | .anyRun | .directories => false

/-- For each place of a list, whether there is a `true` from there on. -/
def anyLater : List Bool → List Bool
  | [] => []
  | b :: bs =>
    let later := anyLater bs
    (b || later.headD false) :: later

/-- For each end of a name, longest first, whether `next` holds somewhere below its first directories:
after a slash, or at the end. -/
def afterSlash : List Char → (next : List Bool) → List Bool
  | c :: cs, _ :: next =>
    let later := afterSlash cs next
    ((c == '/' && next.headD false) || later.headD false) :: later
  | _, next => next

/-- For each end of a name, longest first, whether it is the token and then an end where `next`
holds. -/
def Token.before (t : Token) (cs : List Char) (next : List Bool) : List Bool :=
  match t with
  | .anyRun => anyLater next
  | .directories => List.zipWith (· || ·) next (afterSlash cs next)
  | t => List.zipWith (fun c b => t.accepts c && b) cs next.tail ++ [false]

/-- For each end of a name, longest first, whether the tokens stand for it. -/
def matchEnds (cs : List Char) : List Token → List Bool
  | [] => cs.map (fun _ => false) ++ [true]
  | t :: ts => t.before cs (matchEnds cs ts)

/-! ## Reading -/

/-- The characters and ranges of a class. -/
def classRanges : List Char → List (Char × Char)
  | a :: '-' :: b :: cs => (a, b) :: classRanges cs
  | a :: cs => (a, a) :: classRanges cs
  | [] => []

/-- A class after its bracket, and what follows it. The first character is a member whatever it is. -/
def takeClass : List Char → Option (Token × List Char)
  | [] | ['!'] => none
  | '!' :: c :: cs =>
    (Text.cutFirst ']' cs).map fun (inside, rest) => (.charIn (classRanges (c :: inside)) true, rest)
  | c :: cs =>
    (Text.cutFirst ']' cs).map fun (inside, rest) => (.charIn (classRanges (c :: inside)) false, rest)

/-- The tokens of the text from `position` on, which `before` precedes. `fuel` bounds their number. -/
def takeTokens : (fuel : Nat) → (position : Nat) → (before : Option Char) → List Char →
    Except Error (List Token)
  | 0, _, _, _ | _, _, _, [] => .ok []
  | fuel + 1, position, before, c :: cs =>
    match c with
    | '?' => return .anyChar :: (← takeTokens fuel (position + 1) (some c) cs)
    | '*' =>
      match cs with
      | '*' :: '*' :: _ => .error (.badMask (position + 2) .tooManyStars)
      | '*' :: cs =>
        if before = none ∨ before = some '/' then
          match cs with
          | [] => return [.directories]
          | '/' :: cs => return .directories :: (← takeTokens fuel (position + 3) (some '/') cs)
          | _ => .error (.badMask (position + 2) .partOfComponent)
        else .error (.badMask (position - 1) .partOfComponent)
      | cs => return .anyRun :: (← takeTokens fuel (position + 1) (some c) cs)
    | '[' =>
      match takeClass cs with
      | none => .error (.badMask position .openClass)
      | some (token, rest) =>
        return token :: (← takeTokens fuel (position + 1 + (cs.length - rest.length)) (some ']') rest)
    | c => return .char c :: (← takeTokens fuel (position + 1) (some c) cs)

end Mask

structure Mask where
  tokens : List Mask.Token
  deriving DecidableEq

namespace Mask

def parse (mask : List Char) : Except Error Mask := do
  return ⟨← takeTokens mask.length 0 none mask⟩

def isMatch (m : Mask) (name : String) : Bool := (matchEnds name.toList m.tokens).headD false

/-- The masks of a list of texts, each of which holds masks between semicolons. -/
def pieces (texts : List String) : List (List Char) :=
  ((texts.flatMap fun t => Text.splitOn ';' t.toList).map Text.trim).filter (!·.isEmpty)

def compile (texts : List String) : Except Error (List Mask) := (pieces texts).mapM parse

end Mask

end Coupling
