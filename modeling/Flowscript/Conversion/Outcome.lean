/-
  Flowscript.Conversion.Outcome

  What becomes of nodes when they are handed to their converters: fragments, or a
  comment and a warning in place of a node that cannot be converted.  No node keeps
  the others from being converted.
-/
import Flowscript.Conversion.Report

namespace Flowscript

/-! ## One node -/

/-- A comment in place of a node that could not be converted. -/
def placeholder (n : Node) (reason : String) : Fragment :=
  { id := n.id ++ "_placeholder"
    type := .declaration
    content := "// TODO: " ++ reason ++ " for node '" ++ n.caption ++ "' (" ++ n.id ++ ")"
    nodeId := some n.id
    category := n.category
    description := "Placeholder for " ++ (if n.type ≠ "" then n.type else "untyped") ++ " node" }

/-- What became of a node. -/
inductive NodeOutcome where
  | commented (type warning : String) (fragment : Fragment)
  | converted (type : String) (fragments : List Fragment) (warnings : List String)
deriving DecidableEq, Repr, Inhabited

namespace NodeOutcome

/-- The outcome of a node that cannot be converted. -/
def comment (n : Node) (reason warning : String) : NodeOutcome :=
  .commented n.type warning (placeholder n reason)

def fragments : NodeOutcome → List Fragment
  | .commented _ _ f => [f]
  | .converted _ fs _ => fs

def warnings : NodeOutcome → List String
  | .commented _ w _ => [w]
  | .converted _ _ ws => ws

end NodeOutcome

namespace Converter

/-- The texts of names, all of which must be texts. -/
def textsOf (names : List Scalar) : Except Fault (List String) :=
  names.mapM fun s => match s with
    | .str t => .ok t
    | _ => .error (.unfit .shape)

/-- What a converter says about its nodes when it is not to be used any more. -/
def retirement (c : Converter) (type : String) : List String :=
  if !c.deprecated then []
  else match c.replacement.filter (· ≠ "") with
    | some r => ["Node type '" ++ type ++ "' is deprecated, use '" ++ r ++ "' instead"]
    | none => ["Node type '" ++ type ++ "' is deprecated"]

/-- What becomes of a node whose type is that of the converter; with a report, a node that lacks
required parameters is not converted. -/
def outcome (c : Converter) (report : Option Report) (context : Context) (n : Node) :
    Except Fault NodeOutcome :=
  if !c.accepts n then
    .ok (.comment n ("Converter for '" ++ n.type ++ "' cannot convert this node")
      ("Converter for '" ++ n.type ++ "' rejected node '" ++ n.id ++ "'"))
  else do
    let missing ← textsOf (match report with
      | some r => r.missing n.id
      | none => [])
    if !missing.isEmpty then
      let names := Text.join ", " missing
      pure (.comment n ("Missing required parameters (" ++ names ++ ")")
        ("Node '" ++ n.id ++ "' is missing required parameters: " ++ names))
    else match c.convert n context with
      | .error e =>
        pure (.comment n ("Conversion failed for '" ++ n.type ++ "'")
          ("Converter for '" ++ n.type ++ "' failed on node '" ++ n.id ++ "': " ++ e.message))
      | .ok [] =>
        pure (.converted n.type [] (c.retirement n.type ++
          ["Converter for '" ++ n.type ++ "' produced no code for node '" ++ n.id ++ "'"]))
      | .ok fragments => pure (.converted n.type fragments (c.retirement n.type))

end Converter

/-- What becomes of a node; a node of an alias is handed over under the type it stands for. -/
def Registry.outcome (r : Registry) (report : Option Report) (context : Context) (n : Node) :
    Except Fault NodeOutcome :=
  match r.get? n.type with
  | none =>
    .ok (.comment n ("Unsupported node type '" ++ n.type ++ "'")
      ("Unsupported node type '" ++ n.type ++ "' for node '" ++ n.id ++ "' (" ++ n.caption ++ ")"))
  | some c =>
    let type := (r.resolvedType? n.type).getD n.type
    c.outcome report context { n with type := if type ≠ "" then type else n.type }

/-! ## Several nodes -/

/-- Nodes with their fragments, warnings, and the types that were and were not converted. -/
structure Outcomes where
  fragments : List (String × List Fragment) := []
  warnings : List String := []
  converted : List String := []
  unsupported : List String := []
deriving Repr, Inhabited

namespace Outcomes

/-- The fragments of a node. -/
def fragmentsOf (all : Outcomes) (id : String) : List Fragment :=
  (Assoc.get? all.fragments id).getD []

/-- Adds a type, unless it is there. -/
def addType (types : List String) (type : String) : List String :=
  if type ∈ types then types else types ++ [type]

/-- Adds the outcome of a node. -/
def add (all : Outcomes) (id : String) (o : NodeOutcome) : Outcomes :=
  let all := { all with
    fragments := Assoc.put id o.fragments all.fragments
    warnings := all.warnings ++ o.warnings }
  match o with
  | .commented type .. => { all with unsupported := addType all.unsupported type }
  | .converted type .. => { all with converted := addType all.converted type }

end Outcomes

/-- What becomes of nodes, in order, after those that are done. -/
def Registry.outcomesAfter (r : Registry) (report : Option Report) (context : Context)
    (done : Outcomes) : List Node → Except Fault Outcomes
  | [] => .ok done
  | n :: rest => do
    let o ← r.outcome report context n
    r.outcomesAfter report context (done.add n.id o) rest

/-- What becomes of nodes, in order. -/
def Registry.outcomes (r : Registry) (report : Option Report) (context : Context)
    (ns : List Node) : Except Fault Outcomes := r.outcomesAfter report context {} ns

end Flowscript
