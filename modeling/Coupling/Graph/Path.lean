/-
Shortest paths.

From a source the vertex with the least distance comes first, of two with the
same distance the one with the smaller number. An edge's cost is asked for when
its source comes up; a cost that is refused ends the search. Costs may be of any
type that says how they add up and compare.
-/
import Coupling.Graph
import Coupling.Number.Layout
import Coupling.SortedMap

namespace Coupling

class Cost (γ : Type) where
  zero : γ
  add : γ → γ → γ
  /-- Whether one distance is shorter than another. -/
  less : γ → γ → Bool
  /-- The order in which distances come up. -/
  compare : γ → γ → Ordering
  /-- Whether an edge may cost this. -/
  isValid : γ → Bool
  render : γ → String

/-- Costs are neither negative nor NaN. -/
instance : Cost Binary64 where
  zero := Binary64.zero
  add := Binary64.add
  less := Binary64.lt
  compare := Binary64.totalCompare
  isValid x := !(x.isNaN || x.lt Binary64.zero)
  render := Binary64.render Layout.plain

namespace Graph

variable {ω γ : Type} [Cost γ]

/-- What a search from one source knows. -/
structure PathSearch (γ : Type) where
  distances : SortedMap Nat γ
  /-- The last edges of the paths found. -/
  arrivals : SortedMap Nat Nat
  /-- Vertices to look at, nearest first. -/
  queue : List (γ × Nat)

namespace PathSearch

def start (source : Nat) : PathSearch γ :=
  { distances := SortedMap.empty.insert source Cost.zero, arrivals := ∅, queue := [(Cost.zero, source)] }

/-- Puts a vertex at its place in the queue. -/
def enqueue (cost : γ) (v : Nat) : List (γ × Nat) → List (γ × Nat)
  | [] => [(cost, v)]
  | (c, u) :: rest =>
    if ((Cost.compare cost c).then (compare v u)).isLE then (cost, v) :: (c, u) :: rest
    else (c, u) :: enqueue cost v rest

/-- Whether a distance is shorter than the one known. -/
def improves (s : PathSearch γ) (v : Nat) (distance : γ) : Bool :=
  match s.distances.get? v with
  | none => true
  | some known => Cost.less distance known

/-- Follows an edge whose source is `distance` away. -/
def relax (s : PathSearch γ) (distance cost : γ) (e : Edge ω) : PathSearch γ :=
  let next := Cost.add distance cost
  if s.improves e.target next then
    { distances := s.distances.insert e.target next
      arrivals := s.arrivals.insert e.target e.id
      queue := enqueue next e.target s.queue }
  else s

/-- Follows edges whose source is `distance` away, until one has a cost that is refused. -/
def relaxAll (g : Graph ω) (costOf : EdgeView ω → γ) (distance : γ) :
    List (Edge ω) → PathSearch γ → Except Error (PathSearch γ)
  | [], s => .ok s
  | e :: es, s =>
    let view := g.view e
    let cost := costOf view
    if Cost.isValid cost then relaxAll g costOf distance es (s.relax distance cost e)
    else .error (.invalidWeight (Cost.render cost) view.source view.target)

/-- Works off the queue, `steps` entries at most. An entry that a shorter path has overtaken is passed
over. -/
def run (g : Graph ω) (costOf : EdgeView ω → γ) : (steps : Nat) → PathSearch γ → Except Error (PathSearch γ)
  | 0, s => .ok s
  | steps + 1, s =>
    match s.queue with
    | [] => .ok s
    | (distance, v) :: queue =>
      let s := { s with queue }
      match s.distances.get? v with
      | some best =>
        if Cost.less best distance then run g costOf steps s
        else do run g costOf steps (← relaxAll g costOf distance (g.outOf v) s)
      | none => do run g costOf steps (← relaxAll g costOf distance (g.outOf v) s)

end PathSearch

/-- The last edges of the shortest paths from a source. Every edge is followed once, so the queue has
no more entries than there are edges, and the source. -/
def arrivalsFrom (g : Graph ω) (costOf : EdgeView ω → γ) (source : Nat) :
    Except Error (SortedMap Nat Nat) := do
  return (← PathSearch.run g costOf (g.edgeCount + 1) (PathSearch.start source)).arrivals

/-- The edges of the path to `v`, last first; none if it does not lead back to the source. -/
def pathBack (g : Graph ω) (arrivals : SortedMap Nat Nat) (source : Nat) :
    (steps : Nat) → (v : Nat) → Option (List (Edge ω))
  | 0, v => if v = source then some [] else none
  | steps + 1, v =>
    if v = source then some []
    else do
      let id ← arrivals.get? v
      let e ← g.edges.find? (·.id == id)
      return e :: (← pathBack g arrivals source steps e.source)

/-- The path from a source to a target. -/
def pathTo (g : Graph ω) (arrivals : SortedMap Nat Nat) (source target : Nat) : List (EdgeView ω) :=
  (((g.pathBack arrivals source arrivals.size target).getD []).reverse).map g.view

/-- The shortest paths from one source to those of the targets that it reaches. -/
def pathsFrom (g : Graph ω) (costOf : EdgeView ω → γ) (targets : List Vertex) (source : Vertex) :
    Except Error (List (List (EdgeView ω))) := do
  let arrivals ← g.arrivalsFrom costOf source.id
  let reached := targets.filter fun t => t.id != source.id && arrivals.contains t.id
  return (reached.map fun t => g.pathTo arrivals source.id t.id).filter (!·.isEmpty)

/-- The shortest paths from each source to each target, in graph order of both. -/
def pathsBetween (g : Graph ω) (costOf : EdgeView ω → γ) (sources targets : List String) :
    Except Error (List (List (EdgeView ω))) := do
  return (← (g.among sources).mapM (g.pathsFrom costOf (g.among targets))).flatten

/-- The edges, each once, where it comes first. -/
def firsts (seen : List Nat) : List (EdgeView ω) → List (EdgeView ω)
  | [] => []
  | e :: es => if seen.contains e.id then firsts seen es else e :: firsts (e.id :: seen) es

/-- A new graph of the edges on shortest paths. -/
def unionOfShortestPaths (g : Graph ω) (costOf : EdgeView ω → γ) (sources targets : List String) :
    Except Error (Graph ω) := do
  let paths ← g.pathsBetween costOf sources targets
  return (firsts [] paths.flatten).foldl (fun h e => (h.addEdge e.source e.target e.weight).2) empty

end Graph

/-- The names on a path. -/
def renderPath {ω : Type} : List (EdgeView ω) → String
  | [] => ""
  | e :: es => (e :: es).foldl (fun s e => s ++ " -> " ++ e.target) e.source

end Coupling
