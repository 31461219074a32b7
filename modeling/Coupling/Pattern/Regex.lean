/-
Regular expressions and where they match.

The meaning of an expression is the set of positions it can lead to from a set
of positions of a text; positions are counted in characters, from 0 before the
first to the length after the last. Whether an expression matches somewhere
needs no more than that, so there is no greed, and nothing is remembered of a
group but that it is one.

Expressions are put together by `ofSet`, `repeated`, `concat` and `choice`, which
keep them simple: no literal stands beside another one, a choice of characters
is a class, and what all alternatives begin with stands before them.
-/
import Coupling.Text.Property
import Coupling.Text.Utf8

namespace Coupling

/-- The sides of a position that a word boundary looks at: what must be so before and after. -/
inductive Boundary where
  /-- A word character on exactly one side. -/
  | either
  /-- Word characters on both sides or on none. -/
  | neither
  | wordStart
  | wordEnd
  /-- No word character before. -/
  | halfStart
  /-- No word character after. -/
  | halfEnd
  deriving DecidableEq

inductive Look where
  | textStart
  | textEnd
  | lineStart
  | lineEnd
  /-- Lines that end in a carriage return, a line feed or both. -/
  | anyLineStart
  | anyLineEnd
  /-- Whether words are made of ASCII characters only, and the boundary. -/
  | word (ascii : Bool) (boundary : Boundary)
  deriving DecidableEq

inductive Regex where
  | empty
  /-- Characters in a row, at least one. -/
  | literal (cs : List Char)
  | chars (set : CharSet)
  | look (l : Look)
  /-- A group that could be asked for. -/
  | group (r : Regex)
  /-- At least `min` and at most `max` times; without `max` any number of times. -/
  | repeat (r : Regex) (min : Nat) (max : Option Nat)
  | seq (rs : List Regex)
  | alt (rs : List Regex)
  deriving Inhabited

/-! ## Assertions -/

namespace Look

def isAsciiWord (c : Char) : Bool := c.isAlphanum || c == '_'

def isWord (ascii : Bool) : Option Char → Bool
  | none => false
  | some c => if ascii then isAsciiWord c else Text.Property.isWord c

def atBoundary (before after : Bool) : Boundary → Bool
  | .either => before != after
  | .neither => before == after
  | .wordStart => !before && after
  | .wordEnd => before && !after
  | .halfStart => !before
  | .halfEnd => !after

/-- Whether the assertion holds between two characters, of which the first or the second is missing
at the start or at the end of the text. -/
def holds (before after : Option Char) : Look → Bool
  | .textStart => before.isNone
  | .textEnd => after.isNone
  | .lineStart => before.isNone || before == some '\n'
  | .lineEnd => after.isNone || after == some '\n'
  | .anyLineStart =>
    before.isNone || before == some '\n' || (before == some '\r' && after != some '\n')
  | .anyLineEnd =>
    after.isNone || after == some '\r' || (after == some '\n' && before != some '\r')
  | .word ascii boundary => atBoundary (isWord ascii before) (isWord ascii after) boundary

end Look

namespace Regex

/-! ## Matching -/

/-- Positions in increasing order, each once. -/
abbrev Positions := List Nat

/-- The positions of either list. -/
def merge : Positions → Positions → Positions
  | [], ys => ys
  | x :: xs, ys => insert x (merge xs ys)
where
  /-- Puts a position at its place. -/
  insert (x : Nat) : Positions → Positions
    | [] => [x]
    | y :: ys => if x < y then x :: y :: ys else if x = y then y :: ys else y :: insert x ys

/-- Follows `step` from the positions `new`, `n` times at most, and adds all it leads to to `seen`. -/
def reach (step : Positions → Positions) : (n : Nat) → (seen new : Positions) → Positions
  | 0, seen, _ => seen
  | n + 1, seen, new =>
    match (step new).filter (!seen.contains ·) with
    | [] => seen
    | found => reach step n (merge found seen) found

mutual

/-- The positions an expression leads to from the given ones. A repetition of more than
`text.size + 1` rounds leads no further than that many do. -/
def run (text : Array Char) : Regex → Positions → Positions
  | .empty, ps => ps
  | .literal cs, ps =>
    cs.foldl (fun ps d => ps.filterMap fun p => if text[p]? = some d then some (p + 1) else none) ps
  | .chars set, ps =>
    ps.filterMap fun p => (text[p]?).bind fun c => if set.contains c then some (p + 1) else none
  | .look l, ps =>
    ps.filter fun p => l.holds (if p = 0 then none else text[p - 1]?) text[p]?
  | .group r, ps => run text r ps
  | .repeat r min max, ps =>
    let rounds := text.size + 1
    let start := (Nat.min min rounds).repeat (run text r) ps
    let more := match max with
      | none => rounds
      | some max => Nat.min (max - min) rounds
    reach (run text r) more start start
  | .seq rs, ps => runAll text rs ps
  | .alt rs, ps => runAny text rs ps

/-- The positions that expressions one after the other lead to. -/
def runAll (text : Array Char) : List Regex → Positions → Positions
  | [], ps => ps
  | r :: rs, ps => runAll text rs (run text r ps)

/-- The positions that some of the expressions lead to. -/
def runAny (text : Array Char) : List Regex → Positions → Positions
  | [], _ => []
  | r :: rs, ps => merge (run text r ps) (runAny text rs ps)

end

/-- Whether the expression matches somewhere in the text. -/
def isMatch (r : Regex) (s : String) : Bool :=
  let text := s.toList.toArray
  !(run text r (List.range (text.size + 1))).isEmpty

/-! ## Lengths -/

/-- Adds lengths, of which one may be unknown. -/
def addLength (a b : Option Nat) : Option Nat := do return (← a) + (← b)

mutual

/-- The least number of octets of a match, if there can be a match. -/
def minLength : Regex → Option Nat
  | .empty | .look _ => some 0
  | .literal cs => some (Text.Utf8.length cs)
  | .chars set => set.ranges.head?.map fun (lo, _) => Text.Utf8.width lo
  | .group r => minLength r
  | .repeat r min _ => (minLength r).map (· * min)
  | .seq rs => minLengthAll rs
  | .alt rs => minLengthAny rs

def minLengthAll : List Regex → Option Nat
  | [] => some 0
  | r :: rs => addLength (minLength r) (minLengthAll rs)

def minLengthAny : List Regex → Option Nat
  | [] => none
  | [r] => minLength r
  | r :: rs => do return min (← minLength r) (← minLengthAny rs)

end

mutual

/-- The greatest number of octets of a match, if there is one. -/
def maxLength : Regex → Option Nat
  | .empty | .look _ => some 0
  | .literal cs => some (Text.Utf8.length cs)
  | .chars set => set.ranges.getLast?.map fun (_, hi) => Text.Utf8.width hi
  | .group r => maxLength r
  | .repeat r _ max => do return (← maxLength r) * (← max)
  | .seq rs => maxLengthAll rs
  | .alt rs => maxLengthAny rs

def maxLengthAll : List Regex → Option Nat
  | [] => some 0
  | r :: rs => addLength (maxLength r) (maxLengthAll rs)

def maxLengthAny : List Regex → Option Nat
  | [] => none
  | [r] => maxLength r
  | r :: rs => do return max (← maxLength r) (← maxLengthAny rs)

end

/-! ## Putting expressions together -/

/-- One of the characters. -/
def ofSet (s : CharSet) : Regex :=
  match s.ranges with
  | [(a, b)] => if a = b then .literal [Char.ofNat a] else .chars s
  | _ => .chars s

/-- A repetition. What matches nothing but the empty text is repeated at most once. -/
def repeated (r : Regex) (min : Nat) (max : Option Nat) : Regex :=
  let (min, max) :=
    if r.maxLength = some 0 then (Nat.min min 1, some (Nat.min (max.getD 1) 1)) else (min, max)
  if max = some 0 then .empty else if min = 1 ∧ max = some 1 then r else .repeat r min max

/-- What an expression is a sequence of. -/
def parts : Regex → List Regex
  | .empty => []
  | .seq rs => rs
  | r => [r]

/-- Puts an expression before others; literals grow together. -/
def prepend : Regex → List Regex → List Regex
  | .literal a, .literal b :: rs => .literal (a ++ b) :: rs
  | r, rs => r :: rs

def concat (rs : List Regex) : Regex :=
  match (rs.flatMap parts).foldr prepend [] with
  | [] => .empty
  | [r] => r
  | rs => .seq rs

/-- What an expression is a choice of. -/
def branches : Regex → List Regex
  | .alt rs => rs
  | r => [r]

/-- The character, if the expression is one. -/
def char? : Regex → Option Char
  | .literal [c] => some c
  | _ => none

def set? : Regex → Option CharSet
  | .chars s => some s
  | _ => none

def parts? : Regex → Option (List Regex)
  | .seq rs => some rs
  | _ => none

mutual

/-- Whether expressions are the same. A group is the same as no other one. -/
def same : Regex → Regex → Bool
  | .empty, .empty => true
  | .literal a, .literal b => a == b
  | .chars s, .chars t => s == t
  | .look a, .look b => a == b
  | .repeat r a b, .repeat s c d => a == c && b == d && same r s
  | .seq rs, .seq ss => sameAll rs ss
  | .alt rs, .alt ss => sameAll rs ss
  | _, _ => false

def sameAll : List Regex → List Regex → Bool
  | [], [] => true
  | r :: rs, s :: ss => same r s && sameAll rs ss
  | _, _ => false

end

/-- What two sequences begin with. -/
def common : List Regex → List Regex → List Regex
  | r :: rs, s :: ss => if same r s then r :: common rs ss else []
  | _, _ => []

/-- A choice, at least two alternatives, that is a class if it is one of characters. -/
def flatChoice (rs : List Regex) : Regex :=
  match rs.mapM char?, rs.mapM set? with
  | some cs, _ => ofSet (.ofRanges (cs.map fun c => (c.toNat, c.toNat)))
  | _, some ss => ofSet (.ofRanges (ss.flatMap (·.ranges)))
  | none, none => .alt rs

def choice (rs : List Regex) : Regex :=
  match rs.flatMap branches with
  | [] => .chars .empty
  | [r] => r
  | r :: rs =>
    match flatChoice (r :: rs) with
    | .alt alternatives =>
      match alternatives.mapM parts? with
      | some (first :: others) =>
        match others.foldl common first with
        | [] => .alt alternatives
        | shared =>
          let rests := (first :: others).map fun ps => concat (ps.drop shared.length)
          concat (shared ++ [flatChoice (rests.flatMap branches)])
      | _ => .alt alternatives
    | merged => merged

end Regex

end Coupling
