/-
Reading regular expressions.

The usual operators, classes with set operations, inline modes, Unicode classes;
no back references and no assertions about longer stretches of text. A reader
takes the modes in force and the characters left, and gives what it read with
the characters after it, or nothing if the pattern is refused.

A pattern is refused as well when its parts nest more than `nestingMax` deep,
or when its machines get too large. The height of a part counts repetitions, groups, classes and operators, and
sequences and choices of more than one part.
-/
import Coupling.Pattern.ClassName
import Coupling.Pattern.Machine
import Coupling.Text.CaseFolding
import Coupling.Text.Recent

namespace Coupling.Pattern

/-! ## Modes -/

structure Modes where
  /-- `i`: case does not count. -/
  foldsCase : Bool := false
  /-- `m`: `^` and `$` stand at line ends. -/
  multiLine : Bool := false
  /-- `s`: `.` is any character. -/
  dotAll : Bool := false
  /-- `R`: lines may end in a carriage return. -/
  anyLineEnd : Bool := false
  /-- `u`: classes are Unicode classes; otherwise they are sets of octets. -/
  unicode : Bool := true
  /-- `x`: blanks and comments are passed over. -/
  spaced : Bool := false
  deriving DecidableEq

mutual

/-- Passes over blanks and comments. -/
def dropBlanks : List Char → List Char
  | [] => []
  | c :: cs =>
    if Text.isWhiteSpace c then dropBlanks cs
    else if c = '#' then dropComment cs
    else c :: cs

def dropComment : List Char → List Char
  | [] => []
  | c :: cs => if c = '\n' then dropBlanks cs else dropComment cs

end

/-- Passes over what does not count in the modes given. -/
def Modes.skip (m : Modes) (cs : List Char) : List Char := if m.spaced then dropBlanks cs else cs

/-! ## Sets -/

/-- Both cases of the ASCII letters of a set. -/
def foldAscii (s : CharSet) : CharSet :=
  let shifted (lo hi : Nat) (f : Nat → Nat) := (CharSet.clip lo hi s.ranges).map fun (a, b) => (f a, f b)
  .ofRanges (s.ranges ++ shifted 0x41 0x5a (· + 32) ++ shifted 0x61 0x7a (· - 32))

def Modes.fold (m : Modes) (s : CharSet) : CharSet :=
  if !m.foldsCase then s else if m.unicode then Text.CaseFolding.close s else foldAscii s

/-- The octets that are not in the set. -/
def complOctets (s : CharSet) : CharSet := .ofRanges (CharSet.clip 0 0xff (CharSet.gaps 0 s.ranges))

def Modes.compl (m : Modes) (s : CharSet) : CharSet := if m.unicode then s.compl else complOctets s

/-- A set as a class of its own: a set of octets must not leave ASCII, or it would cut characters. -/
def Modes.guard (m : Modes) (s : CharSet) : Option CharSet :=
  if m.unicode || s.ranges.all (fun (_, hi) => hi < 0x80) then some s else none

/-- A whole class, of which the complement may be meant. -/
def Modes.close (m : Modes) (negated : Bool) (s : CharSet) : Option CharSet :=
  let s := m.fold s
  m.guard (if negated then m.compl s else s)

/-! ## Characters -/

/-- A character or a class, written alone. -/
inductive Atom where
  /-- A character; `octet` if it was written as two hexadecimal digits. -/
  | char (c : Char) (octet : Bool)
  | set (s : CharSet)
  | look (l : Look)

def hexValue? (c : Char) : Option Nat :=
  if c.isDigit then some (c.toNat - 48)
  else if 'a' ≤ c ∧ c ≤ 'f' then some (c.toNat - 87)
  else if 'A' ≤ c ∧ c ≤ 'F' then some (c.toNat - 55)
  else none

/-- The character of a code point. -/
def charOf? (n : Nat) : Option Char := if n.isValidChar then some (Char.ofNat n) else none

/-- `n` hexadecimal digits after the value `acc`. -/
def takeHex (m : Modes) (acc : Nat) : Nat → List Char → Option (Nat × List Char)
  | 0, cs => some (acc, m.skip cs)
  | n + 1, cs =>
    match m.skip cs with
    | [] => none
    | c :: cs => (hexValue? c).bind fun d => takeHex m (16 * acc + d) n cs

/-- The text up to a closing brace; `fuel` bounds its length. -/
def takeBraced (m : Modes) : (fuel : Nat) → List Char → Option (List Char × List Char)
  | 0, _ => none
  | fuel + 1, cs =>
    match m.skip cs with
    | [] => none
    | '\x7d' :: cs => some ([], cs)
    | c :: cs => (takeBraced m fuel cs).map fun (t, rest) => (c :: t, rest)

/-- The value of hexadecimal digits, at least one. -/
def hexNumber? : List Char → Option Nat
  | [] => none
  | ds => ds.foldlM (fun n c => (hexValue? c).map (16 * n + ·)) 0

/-- A character by its code point, after `x`, `u` or `U`. -/
def hexAtom (m : Modes) (kind : Char) (cs : List Char) : Option (Atom × List Char) :=
  match m.skip cs with
  | [] => none
  | '\x7b' :: cs => do
    let (ds, rest) ← takeBraced m cs.length cs
    return (.char (← charOf? (← hexNumber? ds)) false, m.skip rest)
  | cs => do
    let (n, rest) ← takeHex m 0 (if kind = 'x' then 2 else if kind = 'u' then 4 else 8) cs
    return (.char (← charOf? n) (kind = 'x'), rest)

/-- A named class, after `p` or `P`. -/
def namedClass (m : Modes) (negated : Bool) (cs : List Char) : Option (Atom × List Char) := do
  let (s, swapped, rest) ← match m.skip cs with
    | [] | '\\' :: _ => none
    | '\x7b' :: cs => do
      let (name, rest) ← takeBraced m cs.length cs
      let (s, swapped) ← ClassName.braced? name
      pure (s, swapped, rest)
    | c :: cs => (ClassName.single? [c]).map fun s => (s, false, m.skip cs)
  guard m.unicode
  return (.set (← m.close (negated != swapped) s), rest)

/-- Digits, white space or word characters. -/
def letterClass (m : Modes) (kind : Char) : Option CharSet :=
  let s := match kind.toLower, m.unicode with
    | 'd', true => Text.Category.Nd
    | 's', true => Text.whiteSpace
    | _, true => Text.Property.word
    | 'd', false => .ofText "30-39"
    | 's', false => .ofText "9-d 20"
    | _, false => .ofText "30-39 41-5a 5f 61-7a"
  m.guard (if kind.isUpper then m.compl s else s)

/-- Characters with a meaning of their own, which a backslash takes away. -/
def isMeta (c : Char) : Bool :=
  "\\.+*?()|[]\x7b\x7d^$#&-~".toList.contains c

/-- Characters that may follow a backslash and stand for themselves. -/
def isEscapable (c : Char) : Bool :=
  isMeta c || (c.toNat < 0x80 && !c.isAlphanum && c != '<' && c != '>')

/-- The boundary of a name in braces. -/
def boundary? : List Char → Option Boundary
  | ['s', 't', 'a', 'r', 't'] => some .wordStart
  | ['e', 'n', 'd'] => some .wordEnd
  | ['s', 't', 'a', 'r', 't', '-', 'h', 'a', 'l', 'f'] => some .halfStart
  | ['e', 'n', 'd', '-', 'h', 'a', 'l', 'f'] => some .halfEnd
  | _ => none

/-- A word boundary after `b`. A brace that does not begin with a name is a repetition. -/
def wordBoundary (m : Modes) (cs : List Char) : Option (Atom × List Char) :=
  let isNameChar (c : Char) := c.isAlpha || c == '-'
  let make (b : Boundary) : Atom := .look (.word (!m.unicode) b)
  match cs with
  | '\x7b' :: inner =>
    match m.skip inner with
    | [] => none
    | c :: _ =>
      if isNameChar c then do
        let (name, rest) ← takeBraced m inner.length inner
        return (make (← boundary? name), rest)
      else some (make .either, cs)
  | _ => some (make .either, cs)

/-- What follows a backslash. -/
def escape (m : Modes) : List Char → Option (Atom × List Char)
  | [] => none
  | c :: cs =>
    let char (d : Char) : Option (Atom × List Char) := some (.char d false, cs)
    let look (l : Look) : Option (Atom × List Char) := some (.look l, cs)
    if c == 'x' || c == 'u' || c == 'U' then hexAtom m c cs
    else if c == 'p' || c == 'P' then namedClass m (c == 'P') cs
    else if ['d', 's', 'w', 'D', 'S', 'W'].contains c then (letterClass m c).map fun s => (.set s, cs)
    else if isEscapable c then char c
    else
      match c with
      | 'a' => char '\x07'
      | 'f' => char '\x0c'
      | 't' => char '\t'
      | 'n' => char '\n'
      | 'r' => char '\r'
      | 'v' => char '\x0b'
      | 'A' => look .textStart
      | 'z' => look .textEnd
      | 'b' => wordBoundary m cs
      | 'B' => look (.word (!m.unicode) .neither)
      | '<' => look (.word (!m.unicode) .wordStart)
      | '>' => look (.word (!m.unicode) .wordEnd)
      | _ => none

/-! ## Bracketed classes -/

/-- The operators between parts of a class. -/
inductive SetOperator where
  | inter
  | diff
  | symmDiff

/-- Part of a class: its set and its height. -/
structure Part where
  set : CharSet
  height : Nat

/-- The items read so far since the last operator, joined. -/
structure Items where
  set : CharSet := .empty
  count : Nat := 0
  height : Nat := 0

def Items.add (is : Items) (p : Part) : Items :=
  ⟨is.set.union p.set, is.count + 1, max is.height p.height⟩

def Items.part (is : Items) : Part := ⟨is.set, if is.count ≤ 1 then is.height else is.height + 1⟩

/-- Applies the operator before the last items to what stands before it. -/
def applyPending (m : Modes) (pending : Option (SetOperator × Part)) (rhs : Part) : Part :=
  match pending with
  | none => rhs
  | some (op, lhs) =>
    let a := m.fold lhs.set
    let b := m.fold rhs.set
    let set := match op with
      | .inter => a.inter b
      | .diff => a.diff b
      | .symmDiff => a.symmDiff b
    ⟨set, 1 + max lhs.height rhs.height⟩

/-- The code point of a character inside a class. Sets of octets hold ASCII characters only. -/
def memberOf? (m : Modes) : Atom → Option Nat
  | .char c _ => if m.unicode || c.toNat < 0x80 then some c.toNat else none
  | _ => none

/-- A character or an escape inside a class. -/
def classAtom (m : Modes) : List Char → Option (Atom × List Char)
  | [] => none
  | '\\' :: cs => escape m cs
  | c :: cs => some (.char c false, cs)

/-- The first character that counts after a hyphen. -/
def peekBlanks (commented : Bool) : List Char → Option Char
  | [] => none
  | c :: cs =>
    if Text.isWhiteSpace c then peekBlanks commented cs
    else if c = '#' && !commented then peekBlanks true cs
    else some c

def Modes.peek (m : Modes) (cs : List Char) : Option Char :=
  if m.spaced then peekBlanks false cs else cs.head?

/-- A character, a range or a class of one letter inside a class. -/
def classRange (m : Modes) (cs : List Char) : Option (Part × List Char) := do
  let (a, rest) ← classAtom m cs
  let alone (rest : List Char) : Option (Part × List Char) :=
    match a with
    | .set s => some (⟨s, 0⟩, rest)
    | .look _ => none
    | .char .. => (memberOf? m a).map fun n => (⟨⟨[(n, n)]⟩, 0⟩, rest)
  match m.skip rest with
  | [] => none
  | '-' :: after =>
    if m.peek after == some ']' || m.peek after == some '-' then alone ('-' :: after)
    else
      let (b, rest) ← classAtom m (m.skip after)
      let lo ← memberOf? m a
      let hi ← memberOf? m b
      guard (lo ≤ hi)
      return (⟨if m.unicode then .range lo hi else ⟨[(lo, hi)]⟩, 0⟩, rest)
  | rest => alone rest

/-- An ASCII class such as `[:alpha:]`, after its first bracket: its set, and whether the complement
is meant. -/
def asciiClass? (cs : List Char) : Option (CharSet × Bool × List Char) := do
  let inner ← Text.after? [':'] cs
  let (negated, inner) := match inner with
    | '^' :: rest => (true, rest)
    | _ => (false, inner)
  let (name, rest) ← Text.cutFirst ':' inner
  let rest ← Text.after? [']'] rest
  let s ← ClassName.ascii? (String.ofList name)
  return (s, negated, rest)

/-- The start of a class, after its bracket: whether it is negated, and the hyphens or the closing
bracket that stand for themselves there. -/
def classStart (m : Modes) (cs : List Char) : Bool × Items × List Char :=
  let cs := m.skip cs
  let (negated, cs) := match cs with
    | '^' :: rest => (true, m.skip rest)
    | _ => (false, cs)
  let (items, cs) := hyphens cs.length {} cs
  match items.count, cs with
  | 0, ']' :: rest => (negated, items.add ⟨.singleton ']', 0⟩, m.skip rest)
  | _, _ => (negated, items, cs)
where
  /-- Takes hyphens as characters. -/
  hyphens : Nat → Items → List Char → Items × List Char
    | fuel + 1, items, '-' :: rest => hyphens fuel (items.add ⟨.singleton '-', 0⟩) (m.skip rest)
    | _, items, cs => (items, cs)

/-- The rest of a class. `fuel` bounds the number of its parts. -/
def classBody (m : Modes) :
    (fuel : Nat) → (negated : Bool) → Option (SetOperator × Part) → Items → List Char →
      Option (Part × List Char)
  | 0, _, _, _, _ => none
  | fuel + 1, negated, pending, items, cs =>
    let operator (op : SetOperator) (rest : List Char) :=
      classBody m fuel negated (some (op, applyPending m pending items.part)) {} rest
    match m.skip cs with
    | [] => none
    | '[' :: rest =>
      match asciiClass? rest with
      | some (s, inverted, rest) => do
        classBody m fuel negated pending (items.add ⟨← m.close inverted s, 0⟩) rest
      | none => do
        let (innerNegated, innerItems, rest) := classStart m rest
        let (p, rest) ← classBody m fuel innerNegated none innerItems rest
        classBody m fuel negated pending (items.add p) rest
    | ']' :: rest => do
      let p := applyPending m pending items.part
      return (⟨← m.close negated p.set, p.height + 1⟩, rest)
    | '&' :: '&' :: rest => operator .inter rest
    | '-' :: '-' :: rest => operator .diff rest
    | '~' :: '~' :: rest => operator .symmDiff rest
    | cs => do
      let (p, rest) ← classRange m cs
      classBody m fuel negated pending (items.add p) rest

/-- A class after its bracket. -/
def bracketed (m : Modes) (cs : List Char) : Option (Part × List Char) :=
  let (negated, items, rest) := classStart m cs
  classBody m (cs.length + 1) negated none items rest

/-! ## Repetitions -/

/-- The largest number of repetitions. -/
def countMax : Nat := 0xFFFFFFFF

def takeCountDigits (m : Modes) : (fuel : Nat) → List Char → List Nat × List Char
  | fuel + 1, c :: cs =>
    if c.isDigit then
      let (ds, rest) := takeCountDigits m fuel (m.skip cs)
      ((c.toNat - 48) :: ds, rest)
    else ([], c :: cs)
  | _, cs => ([], cs)

/-- A number with blanks around it; nothing if there are no digits. -/
def takeCount (m : Modes) (cs : List Char) : Option (Option Nat × List Char) :=
  let (ds, rest) := takeCountDigits m cs.length (cs.dropWhile Text.isWhiteSpace)
  let rest := m.skip (rest.dropWhile Text.isWhiteSpace)
  match ds with
  | [] => some (none, rest)
  | _ =>
    let n := ds.foldl (fun n d => 10 * n + d) 0
    if n ≤ countMax then some (some n, rest) else none

/-- The bounds in braces, after the opening one. -/
def takeBounds (m : Modes) (cs : List Char) : Option ((Nat × Option Nat) × List Char) := do
  let (min, rest) ← takeCount m (m.skip cs)
  let min ← min
  match rest with
  | '\x7d' :: rest => return ((min, some min), m.skip rest)
  | ',' :: rest =>
    match m.skip rest with
    | '\x7d' :: rest => return ((min, none), m.skip rest)
    | rest =>
      let (max, rest) ← takeCount m rest
      let max ← max
      match rest with
      | '\x7d' :: rest => if min ≤ max then return ((min, some max), m.skip rest) else none
      | _ => none
  | _ => none

/-- Passes over the mark of a lazy repetition. -/
def dropLazy : List Char → List Char
  | '?' :: cs => cs
  | cs => cs

/-! ## Expressions -/

/-- Part of a sequence: its expression, its height, and whether it can be repeated. -/
structure Piece where
  regex : Regex
  height : Nat
  repeatable : Bool := true

/-- A character outside classes. -/
def charRegex (m : Modes) (c : Char) (octet : Bool) : Option Regex :=
  if m.unicode then
    if m.foldsCase then
      some (.ofSet (.ofRanges ((c.toNat, c.toNat) :: (Text.CaseFolding.orbit c.toNat).map fun n => (n, n))))
    else some (.literal [c])
  else if octet && 0x80 ≤ c.toNat then none
  else some (if m.foldsCase then .ofSet (foldAscii (.singleton c)) else .literal [c])

def atomRegex (m : Modes) : Atom → Option Regex
  | .char c octet => charRegex m c octet
  | .set s => some (.ofSet s)
  | .look l => some (.look l)

/-- `.`, which octet mode refuses. -/
def dot (m : Modes) : Option Regex :=
  if !m.unicode then none
  else if m.dotAll then some (.chars .all)
  else if m.anyLineEnd then some (.chars (CharSet.compl ⟨[(0xa, 0xa), (0xd, 0xd)]⟩))
  else some (.chars (CharSet.compl ⟨[(0xa, 0xa)]⟩))

def lineStart (m : Modes) : Look :=
  if !m.multiLine then .textStart else if m.anyLineEnd then .anyLineStart else .lineStart

def lineEnd (m : Modes) : Look :=
  if !m.multiLine then .textEnd else if m.anyLineEnd then .anyLineEnd else .lineEnd

/-- One item that is neither a group nor a class nor a repetition. -/
def simple (m : Modes) : List Char → Option (Regex × List Char)
  | [] => none
  | '.' :: cs => (dot m).map (·, cs)
  | '^' :: cs => some (.look (lineStart m), cs)
  | '$' :: cs => some (.look (lineEnd m), cs)
  | '\\' :: cs => do
    let (a, rest) ← escape m cs
    return (← atomRegex m a, rest)
  | c :: cs => (charRegex m c false).map (·, cs)

/-- The expression and height of pieces in a row, last first. -/
def sequence : List Piece → Regex × Nat
  | [] => (.empty, 0)
  | [p] => (p.regex, p.height)
  | ps => (.concat (ps.reverse.map (·.regex)), 1 + ps.foldl (fun h p => max h p.height) 0)

/-- The expression and height of alternatives, last first. -/
def choice : List (Regex × Nat) → Regex × Nat
  | [] => (.empty, 0)
  | [a] => a
  | as => (.choice (as.reverse.map (·.1)), 1 + as.foldl (fun h a => max h a.2) 0)

/-- Repeats the last piece; there must be one that can be repeated. -/
def repeatLast (min : Nat) (max : Option Nat) : List Piece → Option (List Piece)
  | [] => none
  | p :: ps =>
    if p.repeatable then some (⟨.repeated p.regex min max, p.height + 1, true⟩ :: ps) else none

/-- Flags of a group, up to its colon or closing parenthesis. `seen` holds the flags so far. -/
def takeFlags (on : Bool) (seen : List Char) (m : Modes) :
    List Char → Option (Modes × List Char × List Char)
  | [] => none
  | c :: cs =>
    if c = ':' || c = ')' then if seen.head? = some '-' then none else some (m, seen, c :: cs)
    else if seen.contains c then none
    else
      let next (m : Modes) := takeFlags on (c :: seen) m cs
      match c with
      | '-' => takeFlags false (c :: seen) m cs
      | 'i' => next { m with foldsCase := on }
      | 'm' => next { m with multiLine := on }
      | 's' => next { m with dotAll := on }
      | 'R' => next { m with anyLineEnd := on }
      | 'u' => next { m with unicode := on }
      | 'x' => next { m with spaced := on }
      | 'U' => next m
      | _ => none

def isNameStart (c : Char) : Bool :=
  c == '_' || Text.Property.alphabetic.contains c || Text.Recent.alphabetic.contains c

def isNameRest (c : Char) : Bool :=
  isNameStart c || c == '.' || c == '[' || c == ']' || Text.Category.N.contains c ||
    Text.Recent.digits.contains c

/-- The name of a group, up to its closing angle bracket. -/
def takeName (cs : List Char) : Option (List Char × List Char) := do
  let (name, rest) ← Text.cutFirst '>' cs
  match name with
  | [] => none
  | c :: r => if isNameStart c && r.all isNameRest then some (name, rest) else none

/-- How a group begins. -/
inductive Opening where
  /-- A group whose inside is read in the modes around it. -/
  | plain
  | named (name : List Char)
  /-- Brackets only, with modes for the inside. -/
  | brackets (m : Modes)
  /-- No group, but modes for the rest of the group around. -/
  | modes (m : Modes)

/-- The beginning of a group, after its parenthesis. -/
def opening (m : Modes) (cs : List Char) : Option (Opening × List Char) :=
  match m.skip cs with
  | '?' :: '=' :: _ | '?' :: '!' :: _ | '?' :: '<' :: '=' :: _ | '?' :: '<' :: '!' :: _ => none
  | '?' :: 'P' :: '<' :: cs | '?' :: '<' :: cs =>
    (takeName cs).map fun (name, rest) => (.named name, rest)
  | '?' :: cs =>
    match takeFlags true [] m cs with
    | some (m', _, ':' :: rest) => some (.brackets m', rest)
    | some (m', _ :: _, ')' :: rest) => some (.modes m', rest)
    | _ => none
  | cs => some (.plain, cs)

/-- What a group has come to: the modes in force, the alternatives and pieces read, last first, and
the names given to groups anywhere so far. -/
structure State where
  modes : Modes
  alternatives : List (Regex × Nat) := []
  pieces : List Piece := []
  names : List (List Char) := []

def State.push (s : State) (p : Piece) : State := { s with pieces := p :: s.pieces }

def State.finish (s : State) : Regex × Nat := choice (sequence s.pieces :: s.alternatives)

/-- Reads to the end of a group or of the pattern. `fuel` bounds the number of items. -/
def group : (fuel : Nat) → State → List Char → Option (State × List Char)
  | 0, _, _ => none
  | fuel + 1, s, cs =>
    let repeated (min : Nat) (max : Option Nat) (rest : List Char) := do
      group fuel { s with pieces := ← repeatLast min max s.pieces } (dropLazy rest)
    match s.modes.skip cs with
    | [] => some (s, [])
    | ')' :: rest => some (s, ')' :: rest)
    | '|' :: rest =>
      group fuel { s with alternatives := sequence s.pieces :: s.alternatives, pieces := [] } rest
    | '?' :: rest => repeated 0 (some 1) rest
    | '*' :: rest => repeated 0 none rest
    | '+' :: rest => repeated 1 none rest
    | '\x7b' :: rest => do
      let ((min, max), rest) ← takeBounds s.modes rest
      repeated min max rest
    | '[' :: rest => do
      let (p, rest) ← bracketed s.modes rest
      group fuel (s.push ⟨.ofSet p.set, p.height, true⟩) rest
    | '(' :: rest =>
      let inside (m : Modes) (names : List (List Char)) (wrap : Regex → Regex) (rest : List Char) := do
        match ← group fuel { modes := m, names := names } rest with
        | (inner, ')' :: rest) =>
          let (r, h) := inner.finish
          group fuel { s.push ⟨wrap r, h + 1, true⟩ with names := inner.names } rest
        | _ => none
      match opening s.modes rest with
      | none => none
      | some (.modes m, rest) => group fuel { s.push ⟨.empty, 0, false⟩ with modes := m } rest
      | some (.plain, rest) => inside s.modes s.names .group rest
      | some (.named name, rest) =>
        if s.names.contains name then none else inside s.modes (name :: s.names) .group rest
      | some (.brackets m, rest) => inside m s.names id rest
    | cs => do
      let (r, rest) ← simple s.modes cs
      group fuel (s.push ⟨r, 0, true⟩) rest

/-- How deep the parts of a pattern may nest. -/
def nestingMax : Nat := 250

end Pattern

/-- The expression of a pattern, unless it is refused. -/
def Regex.parse? (pattern : String) : Option Regex :=
  let cs := pattern.toList
  match Pattern.group (cs.length + 1) { modes := {} } cs with
  | some (s, []) =>
    let (r, height) := s.finish
    if height ≤ Pattern.nestingMax && Pattern.Machine.fits r then some r else none
  | _ => none

end Coupling
