/-
The graph of what types use.

Its vertices are the full names of types, and an edge carries the relations from
one type to another. That a type declares an interface makes no edge; that the
interface is implemented by the type does.
-/
import Coupling.Graph
import Coupling.Usage

namespace Coupling

abbrev DependencyGraph := Graph (List Relation)

namespace DependencyGraph

/-- The graph of entry points and relations. -/
def build (entries : List TypeDef) (rs : List Relation) : DependencyGraph :=
  let g : DependencyGraph := entries.foldl (fun g d => (g.addVertex d.fullName).2) Graph.empty
  (compact rs).foldl (fun g group => (g.addEdge group.source group.target group.relations).2) g

end DependencyGraph

/-- The graph of what entry points use. -/
def Registry.dependencyGraph (g : Registry) (o : Options) (entries : List TypeDef) :
    Logged (DependencyGraph × Registry) := do
  let (rs, g) ← g.usages o (entries.map (·.reference))
  let graph := DependencyGraph.build entries (rs.filter (·.kind != RelationKind.interface))
  Logged.log (.dependencyGraph entries.length graph.vertexCount graph.edgeCount)
  return (graph, g)

end Coupling
