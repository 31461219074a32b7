/-
Taking vertices out of the way, and putting vertices together.

Contracting a vertex leaves, for each edge into it and each edge out of it, an
edge from where the one comes to where the other goes. Merging puts the vertices
that share a key into one vertex named by the key.
-/
import Coupling.Graph

namespace Coupling.Graph

variable {ω : Type}

/-! ## Contraction -/

/-- The edges that stand for the ways through a vertex. -/
def through (g : Graph ω) (merge : EdgeView ω → EdgeView ω → ω) (v : Nat) : List (Nat × Nat × ω) :=
  (g.into v).flatMap fun i => (g.outOf v).map fun o => (i.source, o.target, merge (g.view i) (g.view o))

/-- Contracts a vertex. Edges that still touch it go away with it. -/
def contract (g : Graph ω) (merge : EdgeView ω → EdgeView ω → ω) (v : Nat) : Graph ω :=
  (g.linkAll (g.through merge v)).drop v

def contractVertex (g : Graph ω) (merge : EdgeView ω → EdgeView ω → ω) (name : String) :
    Except Error (Graph ω) := do
  return g.contract merge (← g.require name)

/-- Contracts names one after the other, and counts those that are vertices. -/
def contractNames (merge : EdgeView ω → EdgeView ω → ω) : List String → Graph ω → Nat × Graph ω
  | [], g => (0, g)
  | name :: names, g =>
    match g.idOf? name with
    | none => contractNames merge names g
    | some v =>
      let (n, g) := contractNames merge names (g.contract merge v)
      (n + 1, g)

/-- Contracts the vertices whose names are chosen, in graph order, and counts them. -/
def contractVertices (g : Graph ω) (chosen : String → Bool) (merge : EdgeView ω → EdgeView ω → ω) :
    Nat × Graph ω :=
  contractNames merge (g.names.filter chosen) g

/-! ## Merging -/

/-- Vertices that share a key. -/
structure Partition where
  key : String
  members : List String
  deriving DecidableEq

/-- Adds a name to the partition of its key, which comes last if it is new. -/
def addMember (key name : String) : List Partition → List Partition
  | [] => [⟨key, [name]⟩]
  | p :: ps =>
    if p.key = key then { p with members := p.members ++ [name] } :: ps else p :: addMember key name ps

/-- The names by key, in the order of each key's first name. -/
def partitions (keyOf : String → String) (names : List String) : List Partition :=
  names.foldl (fun ps name => addMember (keyOf name) name ps) []

/-- How weights change when an end of an edge moves to a merged vertex. -/
structure Redirect (ω : Type) where
  into : EdgeView ω → (key : String) → ω
  outOf : (key : String) → EdgeView ω → ω

/-- The edges at a vertex whose other ends are no members, `merged` in place of the vertex. -/
def redirected (g : Graph ω) (how : Redirect ω) (key : String) (members : List Nat) (v : Nat) :
    List (Option Nat × Option Nat × ω) :=
  (((g.into v).filter (!members.contains ·.source)).map fun e =>
    (some e.source, none, how.into (g.view e) key)) ++
  (((g.outOf v).filter (!members.contains ·.target)).map fun e =>
    (none, some e.target, how.outOf key (g.view e)))

/-- Puts the members of a partition into one vertex. -/
def mergePartition (g : Graph ω) (how : Redirect ω) (p : Partition) : Graph ω :=
  let members := p.members.filterMap g.idOf?
  let new := members.flatMap (g.redirected how p.key members)
  let (merged, g) := (g.dropAll members).ensure p.key
  g.linkAll (new.map fun (s, t, w) => (s.getD merged, t.getD merged, w))

/-- Whether a partition is one vertex under its own name. -/
def Partition.isTrivial (p : Partition) : Bool := p.members == [p.key]

/-- Merges vertices by key, one partition after the other. -/
def mergeByKey (g : Graph ω) (keyOf : String → String) (how : Redirect ω) : Graph ω :=
  ((partitions keyOf g.names).filter (!·.isTrivial)).foldl (·.mergePartition how ·) g

end Coupling.Graph
