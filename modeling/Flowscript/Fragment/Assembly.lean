/-
  Flowscript.Fragment.Assembly

  Fragments numbered, grouped by type and sorted.  Each node has a slot of order
  numbers of its own, and the fragments that belong to the program as a whole have
  the slot before the first node.
-/
import Flowscript.Fragment.Basic
import Flowscript.Workflow.Refusal

namespace Flowscript

/-- The order numbers reserved for each node. -/
def slotSize : Nat := 1000

/-- Fragments grouped by type. -/
structure Assembled where
  group : FragmentKind → List Fragment

namespace Assembled

/-- The texts of one type. -/
def contents (a : Assembled) (t : FragmentKind) : List String := (a.group t).map (·.content)

/-- All fragments in file order. -/
def all (a : Assembled) : List Fragment := FragmentKind.all.flatMap a.group

/-- The packages the fragments need, sorted. -/
def dependencies (a : Assembled) : List String :=
  Text.sort (Text.distinct (a.all.flatMap (·.dependencies)))

def exportedNames (a : Assembled) : List String := Fragment.exportedNames a.all

def hasAsync (a : Assembled) : Bool := a.all.any (·.isAsync)

end Assembled

namespace Assembly

/-- Numbers fragments from the start of a slot. -/
def numberFrom (start : Int) : List Fragment → List Fragment
  | [] => []
  | f :: fs => { f with order := start } :: numberFrom (start + 1) fs

/-- Numbers the fragments of one slot. -/
def numberSlot (slot : Int) (fs : List Fragment) : Except Fault (List Fragment) :=
  if slotSize ≤ fs.length then .error (.tooManyFragments (slotSize - 1))
  else .ok (numberFrom (slot * slotSize) fs)

/-- Numbers the fragments of all nodes, the first of which has the given slot. -/
def numberSlots (slot : Int) : List (List Fragment) → Except Fault (List Fragment)
  | [] => .ok []
  | fs :: rest => do
    let first ← numberSlot slot fs
    let others ← numberSlots (slot + 1) rest
    pure (first ++ others)

/-- Without the exports whose text has been seen. -/
def dropRepeatedExports (seen : List String) : List Fragment → List Fragment
  | [] => []
  | f :: fs =>
    if f.type = .exports then
      if f.content ∈ seen then dropRepeatedExports seen fs
      else f :: dropRepeatedExports (f.content :: seen) fs
    else f :: dropRepeatedExports seen fs

/-- Fragments of all nodes, in execution order, after those of the preamble. -/
def assemble (nodes : List (List Fragment)) (preamble : List Fragment) : Except Fault Assembled := do
  let first ← numberSlot (-1) preamble
  let rest ← numberSlots 0 nodes
  let kept := dropRepeatedExports [] (first ++ rest)
  pure { group := fun t => (kept.filter (·.type = t)).mergeSort fun a b => a.order ≤ b.order }

end Assembly

end Flowscript
