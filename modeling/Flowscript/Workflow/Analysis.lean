/-
  Flowscript.Workflow.Analysis

  Figures about a graph: its size, its longest chain of connections, the parts that
  hang together, and its categories.  Connections with an unknown end and repeated
  connections between the same nodes do not count for chains and parts.
-/
import Flowscript.Workflow.Order

namespace Flowscript

/-! ## Sorting -/

/-- A way to sort ids: given ids and edges between them, an order of the ids that puts the source
of each edge before its target, if there is one. -/
abbrev Sorting := List String → List (String × String) → Option (List String)

/-- Sorts ids as Kahn's order does. -/
def Kahn.sorting : Sorting := fun ids edges =>
  let sorted := Kahn.sort ids fun id => (edges.filter (·.1 = id)).map (·.2)
  if sorted.length < ids.length then none else some sorted

/-! ## Size -/

/-- How large a workflow is. -/
inductive Complexity where
  | simple
  | medium
  | complex
deriving DecidableEq, Repr, Inhabited

def Complexity.name : Complexity → String
  | .simple => "simple"
  | .medium => "medium"
  | .complex => "complex"

namespace Graph

/-- Nodes and connections together: up to 5, up to 10, or more. -/
def complexity (g : Graph) : Complexity :=
  let size := g.nodes.length + g.connections.length
  if 10 < size then .complex else if 5 < size then .medium else .simple

/-! ## Longest chain -/

/-- The edges between known nodes, each once, in order. -/
def edges (g : Graph) : List (String × String) :=
  ((g.connections.filter g.joins).map fun c => (c.source, c.target)).eraseDups

/-- The first of the longest lists. -/
def longest : List (List String) → List String
  | [] => []
  | c :: cs => cs.foldl (fun best d => if best.length < d.length then d else best) c

/-- Longest chains by their last node, innermost last node first; the next node extends the
longest chain that ends at one of its predecessors. -/
def extend (edges : List (String × String)) (chains : List (String × List String)) (id : String) :
    List (String × List String) :=
  let before := (edges.filter (·.2 = id)).filterMap fun e => Assoc.get? chains e.1
  chains ++ [(id, id :: longest before)]

/-- The ids on a longest chain of connections, found along an order of the ids; none in a graph
that cannot be sorted. -/
def criticalPathBy (g : Graph) (sorting : Sorting) : List String :=
  match sorting g.distinctIds g.edges with
  | none => []
  | some ids => (longest ((ids.foldl (extend g.edges) []).map (·.2))).reverse

/-- The ids on a longest chain of connections; none in a graph with a cycle. -/
def criticalPath (g : Graph) : List String := g.criticalPathBy Kahn.sorting

/-! ## Parts and categories -/

/-- Joins the groups of the two ends of an edge. -/
def mergeGroups (groups : List (List String)) (e : String × String) : List (List String) :=
  let touched := groups.filter fun grp => e.1 ∈ grp || e.2 ∈ grp
  let others := groups.filter fun grp => !(e.1 ∈ grp || e.2 ∈ grp)
  touched.flatten :: others

/-- The number of parts that hang together. -/
def components (g : Graph) : Nat :=
  (g.edges.foldl mergeGroups (g.distinctIds.map fun id => [id])).length

/-- Counts occurrences, in the order of first occurrence. -/
def tally (xs : List String) : List (String × Nat) :=
  (Text.distinct xs).map fun x => (x, xs.count x)

/-- How many nodes each category has, sorted by category. -/
def categories (g : Graph) : List (String × Nat) :=
  (tally (g.nodes.map fun n => if n.category ≠ "" then n.category else "uncategorized")).mergeSort
    fun a b => Text.le a.1 b.1

/-- Nodes that no connection touches. -/
def isolatedNodes (g : Graph) : List Node :=
  g.nodes.filter fun n => !g.connections.any fun c => c.source = n.id || c.target = n.id

end Graph

/-- Figures about a graph. -/
structure Analysis where
  nodeCount : Nat
  connectionCount : Nat
  complexity : Complexity
  entryPoints : List String
  exitPoints : List String
  isolatedNodes : List String
  categories : List (String × Nat)
  components : Nat
  criticalPath : List String
  maxDepth : Nat
deriving DecidableEq, Repr

/-- The figures as a mapping. -/
def Analysis.toValue (a : Analysis) : Value :=
  .record [
    ("node_count", .int a.nodeCount),
    ("connection_count", .int a.connectionCount),
    ("complexity", .str a.complexity.name),
    ("entry_points", .strings a.entryPoints),
    ("exit_points", .strings a.exitPoints),
    ("isolated_nodes", .strings a.isolatedNodes),
    ("categories", .record (a.categories.map fun e => (e.1, .int e.2))),
    ("components", .int a.components),
    ("critical_path", .strings a.criticalPath),
    ("max_depth", .int a.maxDepth)]

/-- The figures of a graph, with the longest chain along the order that a sorting gives. -/
def Graph.analysisBy (g : Graph) (sorting : Sorting) : Analysis :=
  let path := g.criticalPathBy sorting
  { nodeCount := g.nodes.length
    connectionCount := g.connections.length
    complexity := g.complexity
    entryPoints := g.entryNodes.map (·.id)
    exitPoints := g.exitNodes.map (·.id)
    isolatedNodes := g.isolatedNodes.map (·.id)
    categories := g.categories
    components := g.components
    criticalPath := path
    maxDepth := path.length - 1 }

/-- The figures of a graph. -/
def Graph.analysis (g : Graph) : Analysis := g.analysisBy Kahn.sorting

end Flowscript
