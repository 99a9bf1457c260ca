/-
  Flowscript.Conversion.Report

  Checks of a graph.  Structural errors keep a graph from being converted; errors of
  parameters and warnings do not.
-/
import Flowscript.Converter.Registry
import Flowscript.Workflow.Analysis

namespace Flowscript

/-- A parameter that is missing or of the wrong kind. -/
structure ParameterError where
  node : String
  name : Scalar
  complaint : Complaint
deriving DecidableEq, Repr

def ParameterError.refusal (e : ParameterError) : Refusal := .parameter e.node e.name e.complaint

/-- The outcome of checking a graph. -/
structure Report where
  errors : List Refusal := []
  parameterErrors : List ParameterError := []
  warnings : List String := []
deriving Repr, Inhabited

namespace Report

def isValid (r : Report) : Bool := r.errors.isEmpty

/-- The cycles among the errors. -/
def cycles (r : Report) : List (List String) :=
  r.errors.filterMap fun e => match e with
    | .cycle members _ => some members
    | _ => none

/-- The errors of one node's parameters. -/
def parameterErrorsOf (r : Report) (id : String) : List ParameterError :=
  r.parameterErrors.filter (·.node = id)

/-- The one refusal that stands for all structural errors. -/
def refusal? (r : Report) : Option Refusal :=
  match r.errors with
  | [] => none
  | [e] => some e
  | es => some (.aggregate es)

/-- The required parameters that a node lacks. -/
def missing (r : Report) (id : String) : List Scalar :=
  ((r.parameterErrorsOf id).filter (·.complaint.reason = "is required")).map (·.name)

/-- One of the errors is about a parameter whose name is an integer too long for a text. -/
def hasLongParameter (r : Report) : Bool := r.parameterErrors.any (·.name.isLongInteger)

end Report

namespace Graph

/-- Ids that several nodes have. -/
def duplicateIds (g : Graph) : List String :=
  g.distinctIds.filter fun id => 1 < g.nodeIds.count id

/-- No nodes, or ids that several nodes have. -/
def nodeErrors (g : Graph) : List Refusal :=
  if g.nodes.isEmpty then [.noNodes]
  else if g.duplicateIds.isEmpty then [] else [.duplicateIds g.duplicateIds]

/-- The ends of a connection that are no nodes. -/
def unknownEnds (g : Graph) (c : Connection) : List String :=
  [c.source, c.target].filter fun e => !g.knows e

/-- Connections with unknown ends. -/
def danglingErrors (g : Graph) : List Refusal :=
  (g.connections.filter fun c => !(g.unknownEnds c).isEmpty).map fun c =>
    .dangling c.id (g.unknownEnds c)

/-- All structural errors. -/
def structureErrors (g : Graph) : List Refusal :=
  g.nodeErrors ++ g.danglingErrors ++ g.cycles.map fun c => .cycle c.members c.connections

/-- Warnings for nodes that nothing is connected to. -/
def isolationWarnings (g : Graph) : List String :=
  if g.nodes.length < 2 then []
  else g.isolatedNodes.map fun n =>
    "Node '" ++ n.id ++ "' (" ++ n.type ++ ") is not connected to any other node"

end Graph

/-- What is wrong with a parameter that a converter asks for. -/
def ParameterRule.complaint? (s : ParameterRule) (v : ParameterValue) : Option Complaint :=
  if v.isMissing then if s.required then some .required else none
  else match s.kind with
    | some k => if v.conforms k then none else some (.wrongKind k v.kind)
    | none => none

/-- Errors of a node's parameters: those its converter asks for, then those the node itself
requires, secrets apart. -/
def Node.parameterErrors (n : Node) (rules : List ParameterRule) : List ParameterError :=
  rules.filterMap (fun s => (s.complaint? (n.param s.name)).map fun c => ⟨n.id, .str s.name, c⟩) ++
    (n.parameters.map (·.2)).filterMap fun p =>
      if rules.any (fun s => p.name = .str s.name) || p.isCredential then none
      else if p.required && p.value.isMissing then some ⟨n.id, p.name, .required⟩
      else none

/-- The parameters the converter of a node asks for. -/
def Registry.rulesOf (r : Registry) (n : Node) : List ParameterRule :=
  match r.get? n.type with
  | some c => c.rules
  | none => []

/-- Checks a graph. -/
def Registry.check (r : Registry) (g : Graph) : Report :=
  { errors := g.structureErrors
    parameterErrors := g.nodes.flatMap fun n => n.parameterErrors (r.rulesOf n)
    warnings := g.isolationWarnings }

end Flowscript
