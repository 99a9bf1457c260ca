/-
  Flowscript.Workflow.Cycle

  The cycles of a graph that a depth-first search closes.  The search follows
  connections between known nodes from each node in turn; an edge back to a node on
  the current path closes a cycle, and a cycle is reported unless one with the same
  members was reported before.
-/
import Flowscript.Workflow.Graph

namespace Flowscript

/-- The members of a cycle in order, and the connections from each member to the next and from
the last to the first. -/
structure Cycle where
  members : List String
  connections : List String
deriving DecidableEq, Repr, Inhabited

namespace Graph

/-- The ids of the nodes, each once, in order. -/
def distinctIds (g : Graph) : List String := Text.distinct g.nodeIds

/-- Whether an id is that of a node. -/
def knows (g : Graph) (id : String) : Bool := g.nodes.any (·.id = id)

/-- Both ends of a connection are nodes. -/
def joins (g : Graph) (c : Connection) : Bool := g.knows c.source && g.knows c.target

/-- The connections from a node to known nodes, in order. -/
def successors (g : Graph) (id : String) : List Connection :=
  g.connections.filter fun c => c.source = id && g.joins c

end Graph

namespace Cycle

/-- The path of a search, innermost node first, with the connection that led to each node. -/
abbrev Path := List (String × String)

/-- The cycle closed by a connection `back` from the innermost node of a path to `target` on it. -/
def close (path : Path) (target back : String) : Cycle :=
  let beyond := (path.takeWhile fun step => step.1 ≠ target).reverse
  { members := target :: beyond.map (·.1)
    connections := beyond.map (·.2) ++ [back] }

/-- The two lists have the same members. -/
def sameMembers (a b : List String) : Bool :=
  a.all (fun x => x ∈ b) && b.all (fun x => x ∈ a)

/-- What a search has seen and found so far. -/
structure Search where
  visited : List String := []
  found : List Cycle := []
deriving Repr, Inhabited

/-- Reports a cycle unless one with the same members was found. -/
def Search.report (s : Search) (c : Cycle) : Search :=
  if s.found.any fun d => sameMembers d.members c.members then s
  else { s with found := s.found ++ [c] }

/-- Searches from the innermost node of `path`, which `fuel` more nodes may extend. -/
def explore (g : Graph) : Nat → Path → String → Search → Search
  | 0, _, _, s => s
  | fuel + 1, path, id, s =>
    (g.successors id).foldl
      (fun s c =>
        if c.target ∉ s.visited then
          explore g fuel ((c.target, c.id) :: path) c.target
            { s with visited := c.target :: s.visited }
        else if path.any (·.1 = c.target) then s.report (close path c.target c.id)
        else s)
      s

/-- Searches from a node, unless it has been visited. -/
def exploreFrom (g : Graph) (s : Search) (id : String) : Search :=
  if id ∈ s.visited then s
  else explore g g.nodes.length [(id, "")] id { s with visited := id :: s.visited }

end Cycle

/-- The cycles of a graph in the order in which they are found. -/
def Graph.cycles (g : Graph) : List Cycle :=
  (g.distinctIds.foldl (Cycle.exploreFrom g) {}).found

end Flowscript
