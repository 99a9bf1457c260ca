/-
  Flowscript.Yaml.Merge

  Mappings completed by those they merge.  The pairs of a merged mapping come before
  the mapping's own, so that the own value of a key counts.  A mapping may be merged
  into itself or into a mapping it merges: it then gives the pairs it has so far.
-/
import Flowscript.Yaml.Node

namespace Flowscript.Yaml

/-- Changes of nodes. -/
abbrev Merging := StateT Nodes (Except Problem)

namespace Merging

/-- The node of a number. -/
def node (i : Nat) : Merging Node := do return (← get).at i

/-- Puts a node in the place of another one. -/
def put (i : Nat) (x : Node) : Merging Unit := modify fun nodes => nodes.setIfInBounds i x

/-- Gives a mapping other pairs. -/
def putPairs (i : Nat) (pairs : List (Nat × Nat)) : Merging Unit := do
  put i (.map (← node i).tag pairs)

/-- The pairs of a mapping to be merged, after it has been completed. -/
def completed (complete : Nat → Merging Unit) (i : Nat) : Merging (List (Nat × Nat)) := do
  match ← node i with
  | .map .. =>
    complete i
    return (← node i).pairs
  | _ => throw .badMerge

/-- The pairs merged from a mapping or from several, of which the first wins. -/
def sourcePairs (complete : Nat → Merging Unit) (i : Nat) : Merging (List (Nat × Nat)) := do
  match ← node i with
  | .seq _ items =>
    let sources ← items.mapM (completed complete)
    return sources.reverse.flatten
  | _ => completed complete i

/-- Completes mapping `i`, of which the pairs before `rest` have been looked at: `kept` are its own
and `adopted` those that were merged.  The mark of a default value is a key like any other.  If the
mapping was completed on the way, nothing is left to do. -/
def mergeInto (complete : Nat → Merging Unit) (i : Nat) (adopted kept : List (Nat × Nat)) :
    List (Nat × Nat) → Merging Unit
  | [] => putPairs i (adopted ++ kept)
  | (k, v) :: rest => do
    let key ← node k
    match key.tag with
    | .merge =>
      putPairs i (kept ++ rest)
      let source ← sourcePairs complete v
      let now := (← node i).pairs
      if now = kept ++ rest then mergeInto complete i (adopted ++ source) kept rest
      else putPairs i (adopted ++ source ++ now)
    | .value =>
      put k (key.withTag .str)
      mergeInto complete i adopted (kept ++ [(k, v)]) rest
    | _ => mergeInto complete i adopted (kept ++ [(k, v)]) rest

/-- Completes a mapping; every merged mapping that is followed takes a pair away first, so there
are at most as many steps as pairs. -/
def complete : Nat → Nat → Merging Unit
  | 0, _ => pure ()
  | n + 1, i => do mergeInto (complete n) i [] [] (← node i).pairs

end Merging

/-- How many pairs all mappings have. -/
def Nodes.pairCount (nodes : Nodes) : Nat := nodes.foldl (fun n x => n + x.pairs.length) 0

end Flowscript.Yaml
