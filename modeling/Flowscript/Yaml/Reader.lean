/-
  Flowscript.Yaml.Reader

  The value of a YAML text.  Every node is made once, and the parts of a collection
  are made after all nodes that were met before them, so that of several faulty nodes
  the one nearest to the root is reported, and of those the first.
-/
import Flowscript.Value.Basic
import Flowscript.Yaml.Lexer
import Flowscript.Yaml.Merge
import Flowscript.Yaml.Scalar

namespace Flowscript.Yaml

/-! ## Scalars -/

/-- The text of a node that is to be a scalar.  A mapping with a default value stands for that
value; a chain of `n` such mappings is followed. -/
def scalarText (nodes : Nodes) : Nat → Node → Except Problem String
  | _, .scalar _ text => .ok text
  | _, .seq tag _ => .error (.wrongShape tag.name)
  | n, .map tag pairs => match pairs.find? fun p => (nodes.at p.1).tag = .value with
    | none => .error (.wrongShape tag.name)
    | some (_, v) => match n with
      | 0 => .error .endlessScalar
      | n + 1 => scalarText nodes n (nodes.at v)

/-- The scalar of a node. -/
def nodeScalar (nodes : Nodes) (x : Node) : Except Problem Scalar := do
  match x.tag with
  | .merge | .value | .other _ => throw (.unknownTag x.tag.name)
  | _ => pure ()
  let text ← scalarText nodes nodes.size x
  match x with
  | .map .timestamp _ => throw .timeInMapping
  | _ => scalarValue x.tag text

/-! ## Objects -/

/-- What a node is; the parts of a collection are numbers of nodes. -/
inductive Object where
  | scalar (s : Scalar)
  | list (items : List Nat)
  | map (entries : List (Scalar × Nat))
  | set (members : List Scalar)
  | pairs (items : List (Nat × Nat))
deriving Repr, Inhabited

/-- The state of making objects: the nodes, the objects of those that have been met, and the
collections whose parts have not. -/
structure Making where
  nodes : Nodes
  objects : Array (Option Object)
  waiting : List Nat := []
deriving Repr, Inhabited

/-- Making of objects. -/
abbrev Maker := StateT Making (Except Problem)

namespace Maker

/-- Gives a node its object. -/
def define (i : Nat) (o : Object) : Maker Unit :=
  modify fun m => { m with objects := m.objects.setIfInBounds i (some o) }

/-- Meets a node: a scalar gets its object, and a collection waits for its parts. -/
def meet (i : Nat) : Maker Unit := do
  let m ← get
  if (m.objects[i]?.bind id).isSome then pure ()
  else
    let x := m.nodes.at i
    match x.tag with
    | .seq | .map | .set | .omap | .pairs =>
      define i (.list [])
      modify fun m => { m with waiting := m.waiting ++ [i] }
    | _ => define i (.scalar (← nodeScalar m.nodes x))

/-- Meets a node that is to be a key. -/
def key (i : Nat) : Maker Scalar := do
  meet i
  match (← get).objects[i]?.bind id with
  | some (.scalar s) => pure s
  | _ => throw .unhashableKey

/-- Puts a value under a key: in place if the key is present, at the end otherwise. -/
def insert (k : Scalar) (v : Nat) : List (Scalar × Nat) → List (Scalar × Nat)
  | [] => [(k, v)]
  | (k', v') :: es => if k'.sameKey k then (k', v) :: es else (k', v') :: insert k v es

/-- The entries of a mapping, which is completed first. -/
def entries (i : Nat) : Maker (List (Scalar × Nat)) := do
  let m ← get
  match m.nodes.at i with
  | .map .. =>
    let (_, nodes) ← (Merging.complete (m.nodes.pairCount + 1) i).run m.nodes
    set { m with nodes }
    (nodes.at i).pairs.foldlM
      (fun done (k, v) => do
        let k ← key k
        meet v
        pure (insert k v done))
      []
  | x => throw (.wrongShape x.tag.name)

/-- The items of a sequence. -/
def items (i : Nat) : Maker (List Nat) := do
  match (← get).nodes.at i with
  | .seq _ xs => pure xs
  | x => throw (.wrongShape x.tag.name)

/-- The key and the value of a mapping of one pair. -/
def onePair (i : Nat) : Maker (Nat × Nat) := do
  match (← get).nodes.at i with
  | .map _ [(k, v)] =>
    meet k
    meet v
    pure (k, v)
  | x => throw (.wrongShape x.tag.name)

/-- Meets the parts of a collection. -/
def finish (i : Nat) : Maker Unit := do
  match ((← get).nodes.at i).tag with
  | .map => define i (.map (← entries i))
  | .set => define i (.set ((← entries i).map (·.1)))
  | .omap | .pairs => define i (.pairs (← (← items i).mapM onePair))
  | _ =>
    let xs ← items i
    xs.forM meet
    define i (.list xs)

/-- Meets the parts of `n` collections that wait, the first one first. -/
def finishAll : Nat → Maker Unit
  | 0 => pure ()
  | n + 1 => do
    match (← get).waiting with
    | [] => pure ()
    | i :: rest =>
      modify fun m => { m with waiting := rest }
      finish i
      finishAll n

end Maker

/-- The objects of a graph of nodes; every node waits at most once. -/
def NodeGraph.objects (g : NodeGraph) : Except Problem (Array (Option Object)) := do
  let start : Making := { nodes := g.nodes, objects := Array.replicate g.nodes.size none }
  let (_, m) ← (do Maker.meet g.root; Maker.finishAll g.nodes.size : Maker Unit).run start
  pure m.objects

/-! ## Values -/

mutual

/-- The knots a value refers to and is not inside of. -/
def loose : Value → List Nat
  | .list xs => looseItems xs
  | .map es => looseEntries es
  | .pair a b => loose a ++ loose b
  | .knot n body => (loose body).filter (· ≠ n)
  | .again n => [n]
  | .scalar _ | .set _ => []

def looseItems : List Value → List Nat
  | [] => []
  | x :: xs => loose x ++ looseItems xs

def looseEntries : List (Scalar × Value) → List Nat
  | [] => []
  | (_, v) :: es => loose v ++ looseEntries es

end

/-- A collection as a knot, if it is inside itself or inside one that it contains. -/
def knotted (i : Nat) (v : Value) : Value := if (loose v).isEmpty then v else .knot i v

/-- The members of a set: integers in ascending order, others as they come. -/
def orderedMembers (ms : List Scalar) : List Scalar :=
  let int? : Scalar → Option Int
    | .int i => some i
    | _ => none
  match ms.mapM int? with
  | some is => (is.mergeSort fun a b => a ≤ b).map .int
  | none => ms

/-- The value of a node inside the collections `outer`; the innermost one is not deeper than
`n` levels. -/
def objectValue (objects : Array (Option Object)) : Nat → List Nat → Nat → Value
  | 0, _, i => .again i
  | n + 1, outer, i =>
    let part := objectValue objects n (i :: outer)
    match objects[i]?.bind id with
    | none => .null
    | some (.scalar s) => .scalar s
    | some (.set ms) => .set (orderedMembers ms)
    | some (.list xs) => if i ∈ outer then .again i else knotted i (.list (xs.map part))
    | some (.map es) =>
      if i ∈ outer then .again i else knotted i (.map (es.map fun e => (e.1, part e.2)))
    | some (.pairs ps) =>
      if i ∈ outer then .again i
      else knotted i (.list (ps.map fun p => .pair (part p.1) (part p.2)))

/-- The value of a text; a text without a document is null. -/
def read (s : List Char) : Except Problem Value := do
  let ts ← tokens s
  match ← NodeGraph.ofTokens ts with
  | none => pure .null
  | some g =>
    let objects ← g.objects
    pure (objectValue objects (objects.size + 1) [] g.root)

end Flowscript.Yaml
