import Coupling.DependencyGraph
import Coupling.Error
import Coupling.Filter
import Coupling.Flags
import Coupling.Graph
import Coupling.Graph.Contraction
import Coupling.Graph.Path
import Coupling.Graph.Reach
import Coupling.Image
import Coupling.Image.Conversion
import Coupling.Image.Reader
import Coupling.Json.Reader
import Coupling.Json.Record
import Coupling.Json.Token
import Coupling.Json.Value
import Coupling.Log
import Coupling.Method
import Coupling.Number.Binary64
import Coupling.Number.Layout
import Coupling.Number.Numeral
import Coupling.Number.Shortest
import Coupling.Pattern.ClassName
import Coupling.Pattern.Machine
import Coupling.Pattern.Parser
import Coupling.Pattern.Regex
import Coupling.Query
import Coupling.Registry
import Coupling.Registry.Index
import Coupling.Relation
import Coupling.Resolver
import Coupling.Search
import Coupling.SortedMap
import Coupling.Source
import Coupling.Source.FileTree
import Coupling.Source.Mask
import Coupling.Source.Path
import Coupling.Text.Age
import Coupling.Text.Blank
import Coupling.Text.CaseFolding
import Coupling.Text.Category
import Coupling.Text.CharSet
import Coupling.Text.Cut
import Coupling.Text.Printable
import Coupling.Text.Property
import Coupling.Text.Quoted
import Coupling.Text.Recent
import Coupling.Text.Script
import Coupling.Text.Segmentation
import Coupling.Text.Utf8
import Coupling.TypeDef
import Coupling.TypeRef
import Coupling.Usage
import Coupling.Proofs.Resolution.Memory
import Coupling.Proofs.Resolution.Transparency
import Coupling.Proofs.Resolution.Noninterference
import Coupling.Proofs.Resolution.Permanence
import Coupling.Proofs.Registry.Contents
import Coupling.Proofs.Usage.Meaning
import Coupling.Proofs.Usage.Closure
import Coupling.Proofs.Registry.Reordering
import Coupling.Proofs.Usage.MemberOrder
import Coupling.Proofs.Usage.Monotone
import Coupling.Proofs.Usage.BreadthFirst
import Coupling.Proofs.Distinct
import Coupling.Proofs.Compaction
import Coupling.Proofs.Nesting
import Coupling.Proofs.Offsets
import Coupling.Proofs.Outcome
import Coupling.Proofs.Graph.WellFormed
import Coupling.Proofs.Graph.Reachability
import Coupling.Proofs.Graph.Contraction
import Coupling.Proofs.Graph.Merging
import Coupling.Proofs.Graph.MergedEdges
import Coupling.Proofs.Reference.Identity
import Coupling.Proofs.Reference.FullName
import Coupling.Proofs.Cutting
import Coupling.Proofs.Reference.Parsing
import Coupling.Proofs.Graph.PathEnumeration
import Coupling.Proofs.Graph.Assembly
import Coupling.Proofs.Graph.Projection
import Coupling.Proofs.Graph.Walk
import Coupling.Proofs.Number.Binary64
import Coupling.Proofs.Graph.PathSearch
import Coupling.Proofs.Graph.ShortestPaths
import Coupling.Proofs.Registry.Rebuild
import Coupling.Proofs.Usage.Asking
import Coupling.Proofs.Registry.LoadOrder
import Coupling.Proofs.Image.WellFormed
import Coupling.Proofs.Json.Spelling
import Coupling.Proofs.Json.RoundTrip
import Coupling.Proofs.Image.RoundTrip
import Coupling.Proofs.Resolution.PlainReferences
import Coupling.Proofs.Image.Naming
import Coupling.Proofs.Image.Bodies
import Coupling.Proofs.Image.BlankNames
import Coupling.Proofs.Resolution.Signatures
import Coupling.Proofs.Usage.Origins
import Coupling.Proofs.Usage.Stages
import Coupling.Proofs.Usage.Admissible
import Coupling.Proofs.Usage.Termination
import Coupling.Proofs.DependencyGraph
import Coupling.Proofs.Usage.Repetition
import Coupling.Proofs.Registry.Lookups
import Coupling.Proofs.Usage.Interfaces
import Coupling.Proofs.Registry.Exactness
import Coupling.Proofs.Registry.Loading
import Coupling.Proofs.Graph.ContractedEdges
import Coupling.Proofs.Graph.RefusedCosts
import Coupling.Proofs.Graph.UnionOfPaths
import Coupling.Proofs.Graph.PathTree
import Coupling.Proofs.Graph.ReachablePart
import Coupling.Proofs.Search.Levels
import Coupling.Proofs.Registry.Inheritance
import Coupling.Proofs.Registry.Declarations
import Coupling.Proofs.Registry.EntryPoints
import Coupling.Proofs.Namespaces
import Coupling.Proofs.OctetOrder
import Coupling.Proofs.Source.Paths
import Coupling.Proofs.Source.Candidates
