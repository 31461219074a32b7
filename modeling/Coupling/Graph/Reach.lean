/-
What can be reached along edges, and graphs cut down to it.
-/
import Coupling.Graph
import Coupling.Search

namespace Coupling.Graph

variable {ω : Type}

/-- The vertices that edges lead to. -/
def successors (g : Graph ω) (v : Nat) : List Nat := (g.outOf v).map (·.target)

/-- The vertices that ways of any length lead to, the starts included. -/
def reachableIds (g : Graph ω) (sources : List String) : List Nat :=
  Search.breadthFirst id g.successors (sources.length + g.edgeCount) (sources.filterMap g.idOf?)

/-- The names that ways of any length lead to, in graph order. -/
def reachable (g : Graph ω) (sources : List String) : List String :=
  let reached := g.reachableIds sources
  (g.vertices.filter (reached.contains ·.id)).map (·.name)

/-- Takes away what cannot be reached. -/
def cutNonReachable (g : Graph ω) (sources : List String) : Graph ω :=
  let reached := g.reachableIds sources
  g.dropAll ((g.vertices.map (·.id)).filter (!reached.contains ·))

/-- Adds vertices one after the other. -/
def addVertices (g : Graph ω) (names : List String) : Graph ω := names.foldl (fun g n => (g.addVertex n).2) g

/-- A new graph of what can be reached. -/
def connectedOut (g : Graph ω) (sources : List String) : Graph ω :=
  let reached := g.reachableIds sources
  let kept := g.edgesById.filter fun e => reached.contains e.source && reached.contains e.target
  kept.foldl (fun h e => (h.addEdge (g.nameOf e.source) (g.nameOf e.target) e.weight).2)
    (empty.addVertices (g.reachable sources))

/-- The kept vertices that ways from `start` lead to without passing a kept one. -/
def directTargets (g : Graph ω) (kept : List Vertex) (start : Vertex) : List Vertex :=
  let isKept (v : Nat) : Bool := kept.any (·.id == v)
  let next (v : Nat) : List Nat := if isKept v && v != start.id then [] else g.successors v
  let reached := Search.breadthFirst id next (1 + g.edgeCount) [start.id]
  kept.filter fun x => x.id != start.id && reached.contains x.id

/-- A new graph of the kept names: an edge stands for the ways between two of them that pass no
third. -/
def project {ψ : Type} (g : Graph ω) (wanted : List String) (weigh : String → String → ψ) : Graph ψ :=
  let kept := g.among wanted
  kept.foldl
    (fun h start => (g.directTargets kept start).foldl
      (fun h x => (h.addEdge start.name x.name (weigh start.name x.name)).2) h)
    (empty.addVertices (kept.map (·.name)))

end Coupling.Graph
