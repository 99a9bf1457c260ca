/-
  Flowscript.Workflow.Order

  Execution orders: every connection's source comes before its target.  The
  depth-first order takes the entry nodes and then all nodes in the order of the
  document, each after the sources it needs.  Kahn's order repeatedly takes the
  nodes all of whose sources have been taken.
-/
import Flowscript.Workflow.Cycle
import Flowscript.Workflow.Refusal

namespace Flowscript

/-- The ways to order nodes. -/
inductive Strategy where
  | depthFirst
  | kahn
deriving DecidableEq, Repr, Inhabited

namespace Strategy

def name : Strategy → String
  | .depthFirst => "depth_first"
  | .kahn => "kahn"

/-- The strategy of a name. -/
def ofName (name : String) : Except Refusal Strategy :=
  match name with
  | "depth_first" => .ok .depthFirst
  | "kahn" => .ok .kahn
  | other => .error (.unknownStrategy other)

end Strategy

namespace Graph

/-- The first node of each id, in the order of the ids. -/
def firstNodes (g : Graph) (ids : List String) : List Node := ids.filterMap g.node?

/-- Why a graph has no order: its first cycle. -/
def orderRefusal (g : Graph) : Refusal :=
  match g.cycles with
  | c :: _ => .cycle c.members c.connections
  | [] => .unordered

end Graph

/-! ## Depth-first order -/

namespace DepthFirst

/-- The sources of the connections into a node, in order. -/
def sourcesOf (g : Graph) (id : String) : List String := (g.incoming id).map (·.source)

/-- A node on the current path and those of its sources that are still to be looked at. -/
structure Frame where
  id : String
  pending : List String
deriving DecidableEq, Repr, Inhabited

/-- A walk: the current path, innermost node first, the ids visited, and the ids that are done,
latest first. -/
structure Walk where
  path : List Frame := []
  visited : List String := []
  done : List String := []
deriving DecidableEq, Repr, Inhabited

namespace Walk

/-- Whether an id is on the current path. -/
def onPath (w : Walk) (id : String) : Bool := w.path.any (·.id = id)

/-- Goes on to a node that has not been visited. -/
def enter (g : Graph) (w : Walk) (id : String) : Walk :=
  { w with
    path := { id, pending := sourcesOf g id } :: w.path
    visited := id :: w.visited }

/-- One step: look at the next source of the innermost node, or finish the node.  A source that
is on the path closes a cycle, and there is no further walk. -/
def step (g : Graph) (w : Walk) : Option Walk :=
  match w.path with
  | [] => some w
  | { id, pending := [] } :: rest => some { w with path := rest, done := id :: w.done }
  | { id, pending := s :: pending } :: rest =>
    let w' := { w with path := { id, pending } :: rest }
    if w.onPath s then none
    else if s ∈ w.visited then some w'
    else some (w'.enter g s)

/-- Steps until the path is empty. -/
def run (g : Graph) : Nat → Walk → Option Walk
  | 0, w => if w.path.isEmpty then some w else none
  | fuel + 1, w => if w.path.isEmpty then some w else (w.step g).bind (run g fuel)

/-- A number of steps that is enough from any node. -/
def bound (g : Graph) : Nat := 2 * g.nodes.length + 3 * g.connections.length + 2

/-- Walks from a node, unless it has been visited. -/
def visit (g : Graph) (w : Walk) (id : String) : Option Walk :=
  if id ∈ w.visited then some w else (w.enter g id).run g (bound g)

end Walk

/-- The ids from which the walk starts: entry nodes, then all nodes. -/
def roots (g : Graph) : List String := g.entryNodes.map (·.id) ++ g.nodeIds

/-- The ids in the order in which the walk finishes them, or nothing if it meets a cycle. -/
def ids? (g : Graph) : Option (List String) :=
  ((roots g).foldlM (Walk.visit g) {}).map fun w => w.done.reverse

/-- The nodes in depth-first order; ids that are not those of nodes are passed over. -/
def order (g : Graph) : Except Refusal (List Node) :=
  match ids? g with
  | some ids => .ok (g.firstNodes ids)
  | none => .error g.orderRefusal

end DepthFirst

/-! ## Kahn's order -/

namespace Kahn

/-- The number of edges into each node that come from nodes not yet taken. -/
abbrev Degrees := List (String × Nat)

/-- Takes one edge into `id` away and tells whether it was the last. -/
def release (id : String) : Degrees → Degrees × Bool
  | [] => ([], false)
  | (k, d) :: rest =>
    if k = id then ((k, d - 1) :: rest, d = 1)
    else let (rest', last) := release id rest; ((k, d) :: rest', last)

/-- Takes the edges into the given targets away, and lists the targets that became free. -/
def releaseAll : List String → Degrees → Degrees × List String
  | [], ds => (ds, [])
  | t :: ts, ds =>
    let (ds, last) := release t ds
    let (ds, free) := releaseAll ts ds
    (ds, if last then t :: free else free)

/-- Takes nodes from the queue, at most `fuel` of them. -/
def drain (targets : String → List String) : Nat → List String → Degrees → List String
  | 0, _, _ => []
  | _, [], _ => []
  | fuel + 1, id :: queue, ds =>
    let (ds, free) := releaseAll (targets id) ds
    id :: drain targets fuel (queue ++ free) ds

/-- An order of `ids`, given the targets of the edges that leave each of them. -/
def sort (ids : List String) (targets : String → List String) : List String :=
  let all := ids.flatMap targets
  let ds : Degrees := ids.map fun id => (id, all.count id)
  drain targets ids.length ((ds.filter (·.2 = 0)).map (·.1)) ds

/-- The ids of a graph in Kahn's order. -/
def ids (g : Graph) : List String :=
  sort g.distinctIds fun id => (g.successors id).map (·.target)

/-- The nodes in Kahn's order. -/
def order (g : Graph) : Except Refusal (List Node) :=
  let ids := ids g
  if ids.length < g.distinctIds.length then .error g.orderRefusal else .ok (g.firstNodes ids)

end Kahn

/-- The nodes of a graph in an order that puts sources before targets. -/
def Strategy.order (s : Strategy) (g : Graph) : Except Refusal (List Node) :=
  match s with
  | .depthFirst => DepthFirst.order g
  | .kahn => Kahn.order g

end Flowscript
