/-
How large the machines of an expression are.

A text is searched octet by octet with two machines of states and arcs, one
that reads forward and one that reads backward. Repetitions are written out in
them, so a short expression can have a large machine; one that takes more than
`sizeMax` octets is refused.

Arcs of classes are shared as far as a small memory of what was drawn before
remembers them. The memory has a fixed number of places, and what is put at a
place replaces what was there.
-/
import Coupling.Pattern.Regex
import Std.Data.HashMap

namespace Coupling.Pattern.Machine

open Text.Utf8 (Span)

/-- A machine while it is drawn: how many states it has, and the octets that lists of arcs take. -/
structure Draft where
  states : Nat := 0
  lists : Nat := 0

def stateSize : Nat := 32

/-- A list of arcs takes this much for each. -/
def arcSize : Nat := 8

/-- A list of states takes this much for each. -/
def branchSize : Nat := 4

def sizeMax : Nat := 10 * 1024 * 1024

def Draft.size (d : Draft) : Nat := stateSize * d.states + d.lists

/-- Adds states, unless the machine gets too large. -/
def Draft.addMany (states lists : Nat) (d : Draft) : Option Draft :=
  let d := ⟨d.states + states, d.lists + lists⟩
  if d.size ≤ sizeMax then some d else none

/-- Adds a state with a list. -/
def Draft.add (list : Nat) (d : Draft) : Option Draft := d.addMany 1 list

/-- A state without a list. -/
def Draft.step (d : Draft) : Option Draft := d.add 0

/-- A state that goes on in one of `n` ways. -/
def Draft.fork (n : Nat) (d : Draft) : Option Draft := d.add (branchSize * n)

/-- A step by an octet in one of `n` ranges. -/
def Draft.octet (n : Nat) (d : Draft) : Option Draft := d.step.bind (·.add (arcSize * n))

/-- Draws something `n` times. -/
def times : (n : Nat) → (Draft → Option Draft) → Draft → Option Draft
  | 0, _, d => some d
  | n + 1, one, d =>
    match one d with
    | some d => times n one d
    | none => none

/-! ## Classes -/

/-- The place of numbers in a memory of the given number of places. -/
def place (places : UInt64) (ns : List Nat) : UInt64 :=
  ns.foldl (fun h n => (h ^^^ n.toUInt64) * 1099511628211) 14695981039346656037 % places

/-- What was drawn before, by its place: the numbers that describe it, and its state. -/
abbrev Memory := Std.HashMap UInt64 (List Nat × Nat)

/-- A machine while a class is drawn. -/
structure Sketch where
  draft : Draft
  memory : Memory := ∅

/-- The state that `ns` describe: the one remembered, or a new one with a list. -/
def Sketch.recall (places : UInt64) (list : Nat) (ns : List Nat) (s : Sketch) :
    Option (Nat × Sketch) :=
  let slot := place places ns
  let known := match s.memory[slot]? with
    | some (ms, id) => if ms = ns then some id else none
    | none => none
  match known with
  | some id => some (id, s)
  | none =>
    match s.draft.add list with
    | some d => some (s.draft.states, ⟨d, s.memory.insert slot (ns, s.draft.states)⟩)
    | none => none

/-- Sequences by the range they begin with, as long as it is the same. -/
def groups : List (List Span) → List (Span × List (List Span))
  | [] => []
  | [] :: seqs => groups seqs
  | (span :: rest) :: seqs =>
    match groups seqs with
    | (next, rests) :: gs =>
      if span = next then (span, rest :: rests) :: gs else (span, [rest]) :: (next, rests) :: gs
    | [] => [(span, [rest])]

/-- A state from which the sequences lead to the state `target`. `depth` is more than their length. -/
def forwardState (target : Nat) : (depth : Nat) → List (List Span) → Sketch → Option (Nat × Sketch)
  | 0, _, s => some (target, s)
  | depth + 1, seqs, s =>
    match groups seqs with
    | [] => some (target, s)
    | gs =>
      let draw (acc : List Nat × Sketch) (g : Span × List (List Span)) : Option (List Nat × Sketch) := do
        let (id, s) ← forwardState target depth g.2 acc.2
        return (id :: g.1.2 :: g.1.1 :: acc.1, s)
      (gs.foldlM draw ([], s)).bind fun (ns, s) =>
        s.recall 10000 (arcSize * gs.length) ns.reverse

/-- A class read forward. -/
def forwardClass (seqs : List (List Span)) (d : Draft) : Option Draft := do
  let target := d.states
  let d ← d.step
  let (_, s) ← forwardState target 5 seqs ⟨d, ∅⟩
  return s.draft

/-- A class read backward: each sequence from its last octet to its first. -/
def backwardClass (seqs : List (List Span)) (d : Draft) : Option Draft := do
  let d ← d.fork seqs.length
  let target := d.states
  let d ← d.step
  let draw (s : Sketch) (seq : List Span) : Option Sketch := do
    let (_, s) ← seq.foldlM (fun (acc : Nat × Sketch) span =>
      acc.2.recall 1000 0 [acc.1, span.1, span.2]) (target, s)
    return s
  let s ← seqs.foldlM draw ⟨d, ∅⟩
  return s.draft

def drawClass (backward : Bool) (set : CharSet) (d : Draft) : Option Draft :=
  if set.ranges.all fun (_, hi) => hi < 0x80 then d.octet set.ranges.length
  else if backward then backwardClass (Text.Utf8.sequences set) d
  else forwardClass (Text.Utf8.sequences set) d

/-! ## Words -/

/-- The stretches of nonempty words between words that have come to their end. -/
def stretches : List (List Nat) → List (List (List Nat))
  | [] => [[]]
  | [] :: ws => [] :: stretches ws
  | w :: ws =>
    match stretches ws with
    | s :: ss => (w :: s) :: ss
    | [] => [[w]]

/-- Words with all but one of those at their end before the first that is not. -/
def endOnce (ws : List (List Nat)) : List (List Nat) :=
  match ws.head? with
  | some [] => [] :: ws.dropWhile (·.isEmpty)
  | _ => ws

/-- States and lists of a tree of words that share their beginnings. `depth` is no less than their
length. -/
def treeSize : (depth : Nat) → List (List Nat) → Nat × Nat
  | 0, _ => (0, 0)
  | depth + 1, ws =>
    if ws.all (·.isEmpty) then (0, 0)
    else
      let ss := stretches (endOnce ws)
      let filled := ss.filter (!·.isEmpty)
      let fork := (1, branchSize * (filled.length + (ss.length - 1)))
      filled.foldl (fun acc s =>
        let heads := (s.filterMap List.head?).eraseDups
        let list := if heads.length = 1 then 0 else arcSize * heads.length
        heads.foldl (fun acc h =>
          let below := treeSize depth ((s.filter (·.head? == some h)).map List.tail)
          (acc.1 + below.1, acc.2 + below.2)) (acc.1 + 1, acc.2 + list)) fork

def octetsOf (cs : List Char) : List Nat := cs.flatMap fun c => Text.Utf8.octets c.toNat

/-- A choice of words. -/
def drawWords (backward : Bool) (words : List (List Char)) (d : Draft) : Option Draft :=
  let ws := words.map fun cs => if backward then (octetsOf cs).reverse else octetsOf cs
  let depth := (ws.map List.length).foldl max 0
  let (states, lists) := treeSize (depth + 1) ws
  d.addMany (states + 1) lists

/-! ## Expressions -/

/-- A repetition of what `one` draws; `advances` if it takes an octet at least. -/
def drawRepeat (one : Draft → Option Draft) (advances : Bool) (min : Nat) (max : Option Nat)
    (d : Draft) : Option Draft :=
  match max with
  | none =>
    if min = 0 then
      if advances then (d.fork 2).bind one
      else do (← (← (← one d).fork 2).fork 2).step
    else do (← times min one d).fork 2
  | some max =>
    if min = 0 ∧ max = 1 then do (← one (← d.fork 2)).step
    else if min = max then times min one d
    else do
      let d ← if min = 0 then d.step else times min one d
      times (max - min) (fun d => (d.fork 2).bind one) (← d.step)

def literal? : Regex → Option (List Char)
  | .literal cs => some cs
  | _ => none

mutual

/-- Draws an expression. -/
def draw (backward : Bool) : Regex → Draft → Option Draft
  | .empty, d | .look _, d => d.step
  | .literal cs, d => times (Text.Utf8.length cs) Draft.step d
  | .chars set, d => drawClass backward set d
  | .group r, d => if backward then draw backward r d else do (← draw backward r (← d.step)).step
  | .repeat r min max, d =>
    drawRepeat (draw backward r) (0 < r.minLength.getD 0) min max d
  | .seq rs, d => if backward then drawBackward rs d else drawForward rs d
  | .alt rs, d =>
    match rs.mapM literal? with
    | some words => drawWords backward words d
    | none => drawAlternatives backward 2 rs.length rs d

/-- Draws a sequence from its first part to its last. -/
def drawForward : List Regex → Draft → Option Draft
  | [], d => some d
  | r :: rs, d => (draw false r d).bind (drawForward rs)

/-- Draws a sequence from its last part to its first. -/
def drawBackward : List Regex → Draft → Option Draft
  | [], d => some d
  | r :: rs, d => (drawBackward rs d).bind (draw true r)

/-- Draws the alternatives of a choice of `count`. The states where they part and meet come after the
first `before` of them. -/
def drawAlternatives (backward : Bool) (before count : Nat) : List Regex → Draft → Option Draft
  | [], d => some d
  | r :: rs, d =>
    match draw backward r d with
    | none => none
    | some d =>
      if before = 1 then do
        drawAlternatives backward 0 count rs (← (← d.fork count).step)
      else drawAlternatives backward (before - 1) count rs d

end

/-! ## Whole machines -/

mutual

/-- Whether every match of an expression is at the start of the text. -/
def isAnchored : Regex → Bool
  | .look l => l == .textStart
  | .group r => isAnchored r
  | .repeat r min _ => 0 < min && isAnchored r
  | .seq rs => anchorsAll rs
  | .alt rs => anchorsAny rs
  | _ => false

/-- Whether a part of a sequence that no text stands before is at the start. -/
def anchorsAll : List Regex → Bool
  | [] => false
  | r :: rs => isAnchored r || (r.maxLength == some 0 && anchorsAll rs)

def anchorsAny : List Regex → Bool
  | [] => true
  | r :: rs => isAnchored r && anchorsAny rs

end

mutual

/-- Whether every match of an expression is at the end of the text. -/
def isAnchoredAtEnd : Regex → Bool
  | .look l => l == .textEnd
  | .group r => isAnchoredAtEnd r
  | .repeat r min _ => 0 < min && isAnchoredAtEnd r
  | .seq rs => (anchorsAllAtEnd rs).1
  | .alt rs => anchorsAnyAtEnd rs
  | _ => false

/-- Whether a part of a sequence that no text stands behind is at the end, and whether the whole
sequence takes no text. -/
def anchorsAllAtEnd : List Regex → Bool × Bool
  | [] => (false, true)
  | r :: rs =>
    let (anchored, empty) := anchorsAllAtEnd rs
    (anchored || (empty && isAnchoredAtEnd r), empty && r.maxLength == some 0)

def anchorsAnyAtEnd : List Regex → Bool
  | [] => true
  | r :: rs => isAnchoredAtEnd r && anchorsAnyAtEnd rs

end

/-- The machine of an expression. Unless it is anchored it begins with any octets, and the one that
reads forward has the ends of the match. -/
def machine (backward : Bool) (r : Regex) : Option Draft := do
  let anchored := if backward then isAnchoredAtEnd r else isAnchored r
  let d ← if anchored then Draft.step {} else (Draft.fork 2 {}).bind (Draft.octet 1)
  let d ← draw backward (.group r) d
  d.step

/-- Many words are searched without a machine. -/
def isWordList : Regex → Bool
  | .alt rs => 3000 ≤ rs.length && (rs.mapM literal?).isSome
  | _ => false

/-- Whether an expression can be searched for. -/
def fits (r : Regex) : Bool :=
  isWordList r || ((machine false r).isSome && (machine true r).isSome)

end Coupling.Pattern.Machine
