/-
  Flowscript.Workflow.Graph

  Workflow graphs: nodes, the connections between them, and the document's
  metadata.  `Graph.varNames` gives every node a name of its own in generated code,
  and `Graph.bind` wires the names of a node's sources to its inputs.
-/
import Flowscript.Workflow.Parameter
import Flowscript.Naming.Identifier
import Flowscript.Assoc

namespace Flowscript

/-! ## Nodes and connections -/

/-- A node.  `varName` and `inputs` are filled in before code is generated: its name in
generated code, and the variables wired to each of its inputs. -/
structure Node where
  id : String
  type : String
  label : String := ""
  category : String := ""
  parameters : Parameters := []
  position : Double × Double := (.zero false, .zero false)
  varName : String := ""
  inputs : List (String × List String) := []
deriving Repr, Inhabited

namespace Node

/-- The first of label, type and id that is not empty. -/
def caption (n : Node) : String :=
  if n.label ≠ "" then n.label else if n.type ≠ "" then n.type else n.id

/-- The value of a parameter; one that is not there is missing. -/
def param (n : Node) (name : String) : ParameterValue :=
  match n.parameters.get? (.str name) with
  | some p => p.value
  | none => .missing

/-- The first variable wired to an input. -/
def input? (n : Node) (name : String) : Option String :=
  (Assoc.get? n.inputs name).bind (·.head?)

/-- The parameters that hold secrets. -/
def credentials (n : Node) : List Parameter :=
  (n.parameters.map (·.2)).filter Parameter.isCredential

end Node

/-- A directed connection from an output of `source` to an input of `target`. -/
structure Connection where
  id : String
  source : String
  target : String
  sourceHandle : String := ""
  targetHandle : String := ""
deriving DecidableEq, Repr, Inhabited

namespace Connection

/-- The name of the input a handle stands for.  A handle `target-input-name-Type` stands for
`name`, any other one for itself, and an empty one for `input`. -/
def inputName (c : Connection) : String :=
  match Text.after? (c.target.toList ++ "-input-".toList) c.targetHandle.toList with
  | some rest => String.ofList (Text.cutAt '-' rest).1
  | none => if c.targetHandle ≠ "" then c.targetHandle else "input"

end Connection

/-- Nodes, connections and metadata. -/
structure Graph where
  nodes : List Node := []
  connections : List Connection := []
  metadata : Entries := []
deriving Repr, Inhabited

namespace Graph

/-- The text under a key of the metadata, unless nothing or nothing of content is there. -/
def meta? (g : Graph) (key : String) : Option Value :=
  (g.metadata.field? key).filter (·.isTruthy)

/-- The workflow's name. -/
def name (g : Graph) : String :=
  match g.meta? "name" with
  | some v => v.display
  | none => "workflow"

/-- The name has an integer of so many digits that it has no text. -/
def hasLongName (g : Graph) : Bool := (g.meta? "name").any Value.hasLongInteger

/-- The description has an integer of so many digits that it has no text. -/
def hasLongDescription (g : Graph) : Bool := (g.meta? "description").any Value.hasLongInteger

def nodeIds (g : Graph) : List String := g.nodes.map (·.id)

/-- The first node of an id. -/
def node? (g : Graph) (id : String) : Option Node := g.nodes.find? (·.id = id)

def incoming (g : Graph) (id : String) : List Connection :=
  g.connections.filter (·.target = id)

def outgoing (g : Graph) (id : String) : List Connection :=
  g.connections.filter (·.source = id)

/-- Nodes that no connection leads to. -/
def entryNodes (g : Graph) : List Node :=
  g.nodes.filter fun n => !g.connections.any (·.target = n.id)

/-- Nodes that no connection leaves. -/
def exitNodes (g : Graph) : List Node :=
  g.nodes.filter fun n => !g.connections.any (·.source = n.id)

/-! ## Variables -/

/-- The candidate after `n` collisions. -/
def numbered (base : String) (n : Nat) : String := base ++ "_" ++ Text.ofNat n

/-- The first of `base`, `base_2`, `base_3`, … that is not taken. -/
def freshName (taken : List String) (base : String) : String :=
  if base ∉ taken then base
  else
    match (List.range (taken.length + 1)).find? (fun n => numbered base (n + 2) ∉ taken) with
    | some n => numbered base (n + 2)
    | none => base

/-- Names for nodes in order; `names` and `taken` are what earlier nodes have. -/
def assignNames (names : List (String × String)) (taken : List String) :
    List Node → List (String × String)
  | [] => names
  | n :: rest =>
    let name := freshName taken (Naming.identifier n.caption)
    assignNames (Assoc.put n.id name names) (name :: taken) rest

/-- A name in generated code for each node id, given in the order of the nodes. -/
def varNames (g : Graph) : List (String × String) :=
  assignNames [] Naming.forbiddenNames g.nodes

/-! ## Binding -/

/-- Adds a variable to an input, unless it is there already. -/
def wire (input var : String) (inputs : List (String × List String)) :
    List (String × List String) :=
  let bound := (Assoc.get? inputs input).getD []
  Assoc.put input (if var ∈ bound then bound else bound ++ [var]) inputs

/-- The inputs made by connections, given the variables of their sources. -/
def wireAll (names : List (String × String)) (cs : List Connection) :
    List (String × List String) :=
  cs.foldl (fun inputs c => match Assoc.get? names c.source with
    | some v => wire c.inputName v inputs
    | none => inputs) []

/-- The node with its variable and inputs filled in. -/
def bind (g : Graph) (n : Node) (names : List (String × String)) : Node :=
  { n with
    varName := (Assoc.get? names n.id).getD (Naming.identifier n.caption)
    inputs := wireAll names (g.incoming n.id) }

/-- All nodes filled in with the graph's own variables. -/
def bound (g : Graph) : Graph :=
  { g with nodes := g.nodes.map fun n => g.bind n g.varNames }

end Graph

end Flowscript
