/-
  Flowscript.Conversion.Convert

  From a graph to a program: check, order, bind, convert, assemble and write.  Only
  structural errors of the graph, names without a text, nodes of too many fragments,
  and lists that never end leave a conversion without a program.
-/
import Flowscript.Conversion.Outcome
import Flowscript.Conversion.Tracing
import Flowscript.Project.Basic
import Flowscript.Workflow.Order

namespace Flowscript

/-- How many errors and warnings a report has. -/
def Report.summary (r : Report) : ReportSummary :=
  { errors := r.errors.length
    parameterErrors := r.parameterErrors.length
    warnings := r.warnings.length }

/-- A refusal, if there is one, ends what is done. -/
def refuse : Option Refusal → Except Fault Unit
  | some r => .error (.refused r)
  | none => .ok ()

/-- The nodes of a graph that have the ids of the given nodes, in their order. -/
def Graph.inOrder (g : Graph) (ordered : List Node) : List Node :=
  ordered.filterMap fun n => g.node? n.id

/-- What is known of a program before its files are written: the outcome of the checks, the nodes
in execution order, what became of each of them, and the fragments put in their places. -/
structure Draft where
  report : Report
  ordered : List Node
  outcomes : Outcomes
  assembled : Assembled

/-- Checks a graph, orders, binds and converts its nodes, and assembles their fragments.  The name
of the graph must have a text, and so must the names of parameters that errors are about. -/
def Registry.draft (r : Registry) (strategy : Strategy) (g : Graph) (c : Context) :
    Except Fault Draft := do
  if g.hasLongName then throw .malformed
  let report := r.check g
  if report.hasLongParameter then throw .malformed
  refuse report.refusal?
  let ordered ← (strategy.order g).mapError Fault.refused
  let nodes := g.bound.inOrder ordered
  let outcomes ← r.outcomes (some report) c nodes
  let assembled ← Assembly.assemble (nodes.map fun n => outcomes.fragmentsOf n.id)
    (Tracing.fragments c)
  pure { report, ordered, outcomes, assembled }

/-- The program of a graph. -/
def Registry.convert (r : Registry) (strategy : Strategy) (g : Graph) (c : Context) :
    Except Fault Project := do
  let d ← r.draft strategy g c
  let project ← Project.build g.bound c d.assembled (d.report.warnings ++ d.outcomes.warnings)
    d.outcomes.converted d.outcomes.unsupported
  pure { project with
    facts := { project.facts with
      provenance := some
        { workflow := g.name
          executionOrder := d.ordered.map (·.id)
          validation := d.report.summary } } }

end Flowscript
