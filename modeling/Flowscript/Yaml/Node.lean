/-
  Flowscript.Yaml.Node

  The nodes of a YAML document.  Nodes are numbered, and a collection names its parts
  by their numbers: an alias is the number of its anchor's node, so that several
  collections can share a node and a collection can contain itself.
-/
import Flowscript.Assoc
import Flowscript.Yaml.Tag
import Flowscript.Yaml.Token

namespace Flowscript.Yaml

/-- A node of a document; the parts of a collection are numbers of nodes. -/
inductive Node where
  | scalar (tag : Tag) (text : String)
  | seq (tag : Tag) (items : List Nat)
  | map (tag : Tag) (pairs : List (Nat × Nat))
deriving DecidableEq, Repr, Inhabited

namespace Node

/-- A scalar that was left out. -/
def empty : Node := .scalar .null ""

def tag : Node → Tag
  | .scalar t _ => t
  | .seq t _ => t
  | .map t _ => t

/-- The node with another type. -/
def withTag (t : Tag) : Node → Node
  | .scalar _ text => .scalar t text
  | .seq _ items => .seq t items
  | .map _ ps => .map t ps

/-- The pairs of a mapping. -/
def pairs : Node → List (Nat × Nat)
  | .map _ ps => ps
  | _ => []

end Node

/-- Numbered nodes. -/
abbrev Nodes := Array Node

/-- The node of a number. -/
def Nodes.at (nodes : Nodes) (i : Nat) : Node := nodes[i]?.getD .empty

/-- The nodes of a document and the number of the outermost one. -/
structure NodeGraph where
  nodes : Nodes
  root : Nat
deriving Repr, Inhabited

/-! ## Reading of tokens -/

/-- How many collections can be inside each other. -/
def maxDepth : Nat := 488

/-- The state of reading: the tokens that are left, how much deeper nodes may be, what tag handles
stand for, the numbers of the anchored nodes, and the nodes. -/
structure NodeState where
  tokens : List Token
  depth : Nat := maxDepth
  handles : List (String × String) := [("!", "!"), ("!!", Tag.base)]
  anchors : List (String × Nat) := []
  nodes : Nodes := #[]
deriving Repr, Inhabited

/-- Reading of nodes. -/
abbrev NodeReader := StateT NodeState (Except Problem)

namespace NodeReader

/-- The next token. -/
def peek : NodeReader (Option Token) := do return (← get).tokens.head?

/-- Drops the next token. -/
def drop : NodeReader Unit := modify fun s => { s with tokens := s.tokens.tail }

/-- Whether the next token is one of some. -/
def nextIn (ts : List Token) : NodeReader Bool := do
  return (← peek).any fun t => t ∈ ts

/-- The next token must be this one. -/
def expect (t : Token) : NodeReader Unit := do
  if ← nextIn [t] then drop else throw .unexpected

/-- Adds a node and gives its number. -/
def add (x : Node) : NodeReader Nat := do
  let i := (← get).nodes.size
  modify fun s => { s with nodes := s.nodes.push x }
  pure i

/-- Gives a number its node. -/
def fill (i : Nat) (x : Node) : NodeReader Unit :=
  modify fun s => { s with nodes := s.nodes.setIfInBounds i x }

/-- Reads the parts of a collection, which are one level deeper. -/
def deeper {α : Type} (parts : NodeReader α) : NodeReader α := do
  match (← get).depth with
  | 0 => throw .tooDeep
  | depth + 1 =>
    modify fun s => { s with depth }
    let result ← parts
    modify fun s => { s with depth := depth + 1 }
    pure result

/-- The node of an alias. -/
def referent (name : String) : NodeReader Nat := do
  match Assoc.get? (← get).anchors name with
  | some i => pure i
  | none => throw (.undefinedAlias name)

/-- Makes an anchor stand for a node. -/
def declare (name : String) (i : Nat) : NodeReader Unit := do
  if (Assoc.get? (← get).anchors name).isSome then throw (.repeatedAnchor name)
  else modify fun s => { s with anchors := Assoc.put name i s.anchors }

/-- What a tag says in full. -/
def resolveTag (t : TagText) : NodeReader String := do
  match t.handle with
  | none => pure t.rest
  | some h => match Assoc.get? (← get).handles h with
    | some meaning => pure (meaning ++ t.rest)
    | none => throw (.undefinedHandle h)

/-- An anchor, if there is one. -/
def anchor? : NodeReader (Option String) := do
  match ← peek with
  | some (.anchor name) => drop; pure (some name)
  | _ => pure none

/-- A tag, if there is one. -/
def tag? : NodeReader (Option TagText) := do
  match ← peek with
  | some (.tag t) => drop; pure (some t)
  | _ => pure none

/-- What stands in front of a node: an anchor and a tag, in either order. -/
def properties : NodeReader (Option String × Option TagText) := do
  match ← anchor? with
  | some a => pure (some a, ← tag?)
  | none =>
    match ← tag? with
    | some t => pure (← anchor?, some t)
    | none => pure (none, none)

/-- The type of a scalar: a tag that says nothing leaves it to the text, and so does a plain
scalar without tag. -/
def scalarTag (tag : Option String) (isPlain : Bool) (text : String) : Tag :=
  match tag with
  | some "!" => .ofPlain text
  | some t => .ofAddress t
  | none => if isPlain then .ofPlain text else .str

/-- The type of a collection. -/
def collectionTag (tag : Option String) (default : Tag) : Tag :=
  match tag with
  | none => default
  | some "!" => default
  | some t => .ofAddress t

mutual

/-- The number of a node with its properties.  Block collections are allowed with `block`, and
entries without indentation of their own with `entries`. -/
def node : Nat → Bool → Bool → NodeReader Nat
  | 0, _, _ => throw .unexpected
  | n + 1, block, entries => do
    match ← peek with
    | some (.reference name) => drop; referent name
    | _ =>
      let (anchor, tagText) ← properties
      let tag ← tagText.mapM resolveTag
      let i ← add .empty
      anchor.forM fun a => declare a i
      let x ← content n block entries tag (anchor.isSome || tag.isSome)
      fill i x
      pure i

/-- A node after its properties; with properties its content may be missing. -/
def content : Nat → Bool → Bool → Option String → Bool → NodeReader Node
  | 0, _, _, _, _ => throw .unexpected
  | n + 1, block, entries, tag, hasProperties => do
    match ← peek with
    | some (.scalar isPlain text) =>
      drop
      pure (.scalar (scalarTag tag isPlain text) text)
    | some .flowSequence =>
      drop
      return .seq (collectionTag tag .seq) (← deeper (flowItems n true))
    | some .flowMapping =>
      drop
      return .map (collectionTag tag .map) (← deeper (flowPairs n true))
    | t =>
      if entries && t = some .entry then
        return .seq (collectionTag tag .seq) (← deeper (looseItems n))
      else if block && t = some .blockSequence then
        drop
        return .seq (collectionTag tag .seq) (← deeper (blockItems n))
      else if block && t = some .blockMapping then
        drop
        return .map (collectionTag tag .map) (← deeper (blockPairs n))
      else if hasProperties then
        pure (.scalar (scalarTag tag true "") "")
      else throw .unexpected

/-- The entries of a block sequence, to its end. -/
def blockItems : Nat → NodeReader (List Nat)
  | 0 => throw .unexpected
  | n + 1 => do
    if ← nextIn [.entry] then
      drop
      let t ← if ← nextIn [.entry, .blockEnd] then add .empty else node n true false
      return t :: (← blockItems n)
    else
      expect .blockEnd
      pure []

/-- The entries of a sequence without indentation of its own. -/
def looseItems : Nat → NodeReader (List Nat)
  | 0 => throw .unexpected
  | n + 1 => do
    if ← nextIn [.entry] then
      drop
      let t ← if ← nextIn [.entry, .key, .value, .blockEnd] then add .empty else node n true false
      return t :: (← looseItems n)
    else pure []

/-- The entries of a block mapping, to its end. -/
def blockPairs : Nat → NodeReader (List (Nat × Nat))
  | 0 => throw .unexpected
  | n + 1 => do
    if ← nextIn [.key] then
      drop
      let k ← if ← nextIn [.key, .value, .blockEnd] then add .empty else node n true true
      let v ← blockValue n
      return (k, v) :: (← blockPairs n)
    else
      expect .blockEnd
      pure []

/-- The value of an entry of a block mapping. -/
def blockValue : Nat → NodeReader Nat
  | 0 => throw .unexpected
  | n + 1 => do
    if ← nextIn [.value] then
      drop
      if ← nextIn [.key, .value, .blockEnd] then add .empty else node n true true
    else add .empty

/-- The entries of a flow sequence, to its end; an entry may be a mapping of one pair. -/
def flowItems : Nat → Bool → NodeReader (List Nat)
  | 0, _ => throw .unexpected
  | n + 1, first => do
    if ← nextIn [.flowSequenceEnd] then
      drop
      pure []
    else
      unless first do expect .comma
      if ← nextIn [.key] then
        drop
        let k ←
          if ← nextIn [.value, .comma, .flowSequenceEnd] then add .empty else node n false false
        let v ← flowValue n [.comma, .flowSequenceEnd]
        let i ← add (.map .map [(k, v)])
        return i :: (← flowItems n false)
      else if ← nextIn [.flowSequenceEnd] then
        drop
        pure []
      else
        let t ← node n false false
        return t :: (← flowItems n false)

/-- The entries of a flow mapping, to its end. -/
def flowPairs : Nat → Bool → NodeReader (List (Nat × Nat))
  | 0, _ => throw .unexpected
  | n + 1, first => do
    if ← nextIn [.flowMappingEnd] then
      drop
      pure []
    else
      unless first do expect .comma
      if ← nextIn [.key] then
        drop
        let k ←
          if ← nextIn [.value, .comma, .flowMappingEnd] then add .empty else node n false false
        let v ← flowValue n [.comma, .flowMappingEnd]
        return (k, v) :: (← flowPairs n false)
      else if ← nextIn [.flowMappingEnd] then
        drop
        pure []
      else
        let k ← node n false false
        let v ← add .empty
        return (k, v) :: (← flowPairs n false)

/-- The value of an entry of a flow collection; it may be missing before some tokens. -/
def flowValue : Nat → List Token → NodeReader Nat
  | 0, _ => throw .unexpected
  | n + 1, ends => do
    if ← nextIn [.value] then
      drop
      if ← nextIn ends then add .empty else node n false false
    else add .empty

end

/-! ## Documents -/

/-- The directives before a document. -/
def directives (version : Bool) (handles : List (String × String)) :
    List Token → Except Problem (List (String × String) × List Token)
  | .version major :: rest =>
    if version || major ≠ 1 then .error .badDirective else directives true handles rest
  | .handle name meaning :: rest =>
    if (Assoc.get? handles name).isSome then .error .badDirective
    else directives version (handles ++ [(name, meaning)]) rest
  | .otherDirective :: rest => directives version handles rest
  | rest => .ok (handles, rest)

/-- The handles of every document that are not given another meaning. -/
def withDefaults (handles : List (String × String)) : List (String × String) :=
  Assoc.putNew "!!" Tag.base (Assoc.putNew "!" "!" handles)

/-- The root of a document that starts without a mark. -/
def bareRoot (steps : Nat) : NodeReader Nat := node steps true false

/-- The root of a document that starts with a mark; it may be empty. -/
def markedRoot (steps : Nat) : NodeReader Nat := do
  expect .documentStart
  match ← peek with
  | none => add .empty
  | some t =>
    if t.isDirective || t = .documentStart || t = .documentEnd then add .empty
    else node steps true false

end NodeReader

/-- Nothing but the ends of documents is left. -/
def onlyEnds (ts : List Token) : Bool := ts.all (· = .documentEnd)

/-- The nodes of the one document that tokens make, if there is one.  Every step of reading takes
a token or goes into a collection that has taken one. -/
def NodeGraph.ofTokens (ts : List Token) : Except Problem (Option NodeGraph) :=
  let steps := 4 * ts.length + 4
  match ts with
  | [] => .ok none
  | t :: _ =>
    if t.isDirective || t = .documentStart then do
      let (handles, rest) ← NodeReader.directives false [] ts
      let (root, s) ← (NodeReader.markedRoot steps).run
        { tokens := rest, handles := NodeReader.withDefaults handles }
      if onlyEnds s.tokens then pure (some { nodes := s.nodes, root }) else .error .severalDocuments
    else do
      let (root, s) ← (NodeReader.bareRoot steps).run { tokens := ts }
      if onlyEnds s.tokens then pure (some { nodes := s.nodes, root }) else .error .severalDocuments

end Flowscript.Yaml
