/-
Directed graphs over names, with numbered vertices and edges.

There may be several edges between the same vertices, and from a vertex to
itself. Vertices are listed by number and so are edges; the edges at a vertex
are listed from the newest to the oldest. A number that is given back is the
first to be used again. The numbers of the vertices are kept by name beside them.
-/
import Coupling.Error
import Coupling.SortedMap

namespace Coupling

/-! ## Numbers -/

/-- The numbers that can be handed out: those given back, latest first, and all from `bound` on. -/
structure IdPool where
  bound : Nat := 0
  free : List Nat := []
  deriving DecidableEq, Inhabited

namespace IdPool

/-- The next number. -/
def take (p : IdPool) : Nat × IdPool :=
  match p.free with
  | [] => (p.bound, { p with bound := p.bound + 1 })
  | n :: free => (n, { p with free := free })

def release (p : IdPool) (n : Nat) : IdPool := { p with free := n :: p.free }

/-- Gives numbers back one after the other. -/
def releaseAll (p : IdPool) (ns : List Nat) : IdPool := ns.foldl release p

end IdPool

/-! ## Graphs -/

structure Vertex where
  id : Nat
  name : String
  deriving DecidableEq, Inhabited

structure Edge (ω : Type) where
  id : Nat
  source : Nat
  target : Nat
  weight : ω

/-- An edge with the names of its ends. -/
structure EdgeView (ω : Type) where
  id : Nat
  source : String
  target : String
  weight : ω

def EdgeView.render {ω : Type} (e : EdgeView ω) : String := e.source ++ " -> " ++ e.target

structure Graph (ω : Type) where
  /-- By number. -/
  vertices : List Vertex := []
  /-- Newest first. -/
  edges : List (Edge ω) := []
  /-- The numbers of the vertices, by name. -/
  index : SortedMap String Nat := {}
  vertexIds : IdPool := {}
  edgeIds : IdPool := {}

namespace Graph

variable {ω : Type}

def empty : Graph ω := {}

instance : Inhabited (Graph ω) := ⟨empty⟩

/-! ## Looking -/

def idOf? (g : Graph ω) (name : String) : Option Nat := g.index.get? name

def vertex? (g : Graph ω) (v : Nat) : Option Vertex := g.vertices.find? (·.id == v)

def nameOf (g : Graph ω) (v : Nat) : String := ((g.vertex? v).map (·.name)).getD ""

def contains (g : Graph ω) (name : String) : Bool := (g.idOf? name).isSome

def names (g : Graph ω) : List String := g.vertices.map (·.name)

def vertexCount (g : Graph ω) : Nat := g.vertices.length

def edgeCount (g : Graph ω) : Nat := g.edges.length

def isEmpty (g : Graph ω) : Bool := g.vertices.isEmpty

def view (g : Graph ω) (e : Edge ω) : EdgeView ω := ⟨e.id, g.nameOf e.source, g.nameOf e.target, e.weight⟩

/-- The edges by number. -/
def edgesById (g : Graph ω) : List (Edge ω) := g.edges.mergeSort fun a b => a.id ≤ b.id

def edgeViews (g : Graph ω) : List (EdgeView ω) := g.edgesById.map g.view

def edge? (g : Graph ω) (id : Nat) : Option (EdgeView ω) := (g.edges.find? (·.id == id)).map g.view

def outOf (g : Graph ω) (v : Nat) : List (Edge ω) := g.edges.filter (·.source == v)

def into (g : Graph ω) (v : Nat) : List (Edge ω) := g.edges.filter (·.target == v)

def outEdges (g : Graph ω) (name : String) : List (EdgeView ω) :=
  ((g.idOf? name).map fun v => (g.outOf v).map g.view).getD []

def inEdges (g : Graph ω) (name : String) : List (EdgeView ω) :=
  ((g.idOf? name).map fun v => (g.into v).map g.view).getD []

def edgesBetween (g : Graph ω) (source target : String) : List (EdgeView ω) :=
  (g.outEdges source).filter (·.target == target)

/-- The vertices among the names, by number. -/
def among (g : Graph ω) (wanted : List String) : List Vertex := g.vertices.filter (wanted.contains ·.name)

/-! ## Building -/

/-- Puts a vertex at its place. -/
def placeVertex (x : Vertex) : List Vertex → List Vertex
  | [] => [x]
  | y :: ys => if x.id < y.id then x :: y :: ys else y :: placeVertex x ys

/-- The number of a name, which becomes a vertex if it is none. -/
def ensure (g : Graph ω) (name : String) : Nat × Graph ω :=
  match g.idOf? name with
  | some v => (v, g)
  | none =>
    let (v, ids) := g.vertexIds.take
    (v, { g with vertices := placeVertex ⟨v, name⟩ g.vertices, index := g.index.insert name v, vertexIds := ids })

/-- Adds a vertex, and says whether it is new. -/
def addVertex (g : Graph ω) (name : String) : Bool × Graph ω := (!g.contains name, (g.ensure name).2)

/-- Adds an edge between vertices. -/
def link (g : Graph ω) (source target : Nat) (weight : ω) : Nat × Graph ω :=
  let (e, ids) := g.edgeIds.take
  (e, { g with edges := ⟨e, source, target, weight⟩ :: g.edges, edgeIds := ids })

/-- Adds edges between vertices one after the other. -/
def linkAll (g : Graph ω) (new : List (Nat × Nat × ω)) : Graph ω :=
  new.foldl (fun g (source, target, weight) => (g.link source target weight).2) g

/-- Adds an edge between names, and gives its number. -/
def addEdge (g : Graph ω) (source target : String) (weight : ω) : Nat × Graph ω :=
  let (s, g) := g.ensure source
  let (t, g) := g.ensure target
  g.link s t weight

/-! ## Taking away -/

/-- Takes an edge away, and gives its weight. -/
def removeEdge (g : Graph ω) (id : Nat) : Option ω × Graph ω :=
  match g.edges.find? (·.id == id) with
  | none => (none, g)
  | some e =>
    (some e.weight, { g with edges := g.edges.filter (·.id != id), edgeIds := g.edgeIds.release id })

/-- The index without the name of a vertex. -/
def indexWithout (g : Graph ω) (v : Nat) : SortedMap String Nat :=
  match g.vertex? v with
  | some x => g.index.erase x.name
  | none => g.index

/-- Takes a vertex and its edges away: first those out of it, then those into it. -/
def drop (g : Graph ω) (v : Nat) : Graph ω :=
  let gone := g.outOf v ++ (g.into v).filter (·.source != v)
  { vertices := g.vertices.filter (·.id != v)
    edges := g.edges.filter fun e => e.source != v && e.target != v
    index := g.indexWithout v
    vertexIds := g.vertexIds.release v
    edgeIds := g.edgeIds.releaseAll (gone.map (·.id)) }

/-- Takes vertices away one after the other. -/
def dropAll (g : Graph ω) (vs : List Nat) : Graph ω := vs.foldl drop g

/-- The number of a name that must be a vertex. -/
def require (g : Graph ω) (name : String) : Except Error Nat :=
  match g.idOf? name with
  | some v => .ok v
  | none => .error (.vertexNotFound name)

def removeVertex (g : Graph ω) (name : String) : Except Error (Graph ω) := do
  return g.drop (← g.require name)

end Graph

end Coupling
