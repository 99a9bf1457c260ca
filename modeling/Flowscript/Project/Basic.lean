/-
  Flowscript.Project.Basic

  Generated programs: their files, what they depend on, and how the conversion went.
  A file that cannot be built is left out and leaves an error; the others are built
  all the same, unless a value never ends.
-/
import Flowscript.Project.File

namespace Flowscript

/-- How many errors and warnings checking a graph gave. -/
structure ReportSummary where
  errors : Nat
  parameterErrors : Nat
  warnings : Nat
deriving DecidableEq, Repr, Inhabited

/-- The counts as a mapping. -/
def ReportSummary.toValue (s : ReportSummary) : Value :=
  .record [
    ("errors", .int s.errors), ("parameter_errors", .int s.parameterErrors),
    ("warnings", .int s.warnings)]

/-- What is known of a program's workflow when it was ordered and checked. -/
structure Provenance where
  workflow : String
  executionOrder : List String
  validation : ReportSummary
deriving DecidableEq, Repr, Inhabited

/-- Facts about a generated program. -/
structure ProjectFacts where
  projectName : String
  moduleFormat : ModuleFormat
  nodeCount : Nat
  connectionCount : Nat
  complexity : Complexity
  fragmentCount : Nat
  langfuse : Bool
  tests : Bool
  docs : Bool
  converted : List String
  unsupported : List String
  provenance : Option Provenance := none
deriving DecidableEq, Repr, Inhabited

/-- A generated program. -/
structure Project where
  files : List OutputFile := []
  dependencies : List (String × String) := []
  warnings : List String := []
  errors : List String := []
  facts : ProjectFacts
deriving Repr, Inhabited

namespace Project

/-- Every file was built. -/
def succeeded (p : Project) : Bool := p.errors.isEmpty

/-- The file of a path. -/
def file? (p : Project) (path : String) : Option OutputFile := p.files.find? (·.path = path)

/-- The facts of a program as a mapping. -/
def factsValue (f : ProjectFacts) : Value :=
  .record <| [
    ("project_name", .str f.projectName),
    ("module_format", .str f.moduleFormat.name),
    ("node_count", .int f.nodeCount),
    ("connection_count", .int f.connectionCount),
    ("complexity", .str f.complexity.name),
    ("fragment_count", .int f.fragmentCount),
    ("features", .record [
      ("langfuse", .bool f.langfuse), ("tests", .bool f.tests), ("docs", .bool f.docs)]),
    ("converted", .strings f.converted),
    ("unsupported", .strings f.unsupported)] ++
    match f.provenance with
    | none => []
    | some p => [
        ("workflow", .str p.workflow),
        ("execution_order", .strings p.executionOrder),
        ("validation", p.validation.toValue)]

/-- A file's path and what is known of it, without its text. -/
def fileValue (f : OutputFile) : Value :=
  .record [
    ("path", .str f.path), ("type", .str f.kind.name), ("size", .int f.size),
    ("exports", .strings f.exports), ("dependencies", .strings f.dependencies)]

/-- A program as a mapping, without the texts of its files. -/
def toValue (p : Project) : Value :=
  .record [
    ("files", .list (p.files.map fileValue)),
    ("dependencies", Manifest.table p.dependencies),
    ("warnings", .strings p.warnings),
    ("errors", .strings p.errors),
    ("metadata", factsValue p.facts)]

/-! ## Building -/

/-- The files to build, each with its path. -/
def builds (g : Graph) (c : Context) (a : Assembled) (dependencies : List (String × String))
    (warnings : List String) : List (String × Except Fault OutputFile) :=
  [("src/index.ts", ProjectFile.main g c a),
    ("src/types.ts", ProjectFile.types g c),
    ("src/config.ts", ProjectFile.config g c),
    ("package.json", ProjectFile.manifest g c dependencies),
    ("tsconfig.json", ProjectFile.compilerOptions c),
    (".env.example", ProjectFile.environment g c)] ++
    (if c.includeTests then [("src/__tests__/index.test.ts", ProjectFile.test g c a)] else []) ++
    if c.includeDocs then [("README.md", ProjectFile.readme g c warnings)] else []

/-- The files that could be built. -/
def built (bs : List (String × Except Fault OutputFile)) : List OutputFile :=
  bs.filterMap fun b => match b.2 with
    | .ok f => some f
    | .error _ => none

/-- An error for each file that could not be built. -/
def failures (bs : List (String × Except Fault OutputFile)) : List String :=
  bs.filterMap fun b => match b.2 with
    | .ok _ => none
    | .error e => some ("Failed to generate " ++ b.1 ++ ": " ++ e.message)

/-- The first fault that leaves no program at all. -/
def fatal? (bs : List (String × Except Fault OutputFile)) : Option Fault :=
  bs.findSome? fun b => match b.2 with
    | .ok _ => none
    | .error e => if e.isFatal then some e else none

/-- The program of a graph and its assembled fragments. -/
def build (g : Graph) (c : Context) (a : Assembled)
    (warnings converted unsupported : List String) : Except Fault Project := do
  let dependencies := Dependency.all a c
  let bs := builds g c a dependencies warnings
  if let some fault := fatal? bs then throw fault
  pure
    { files := built bs
      dependencies
      warnings
      errors := failures bs
      facts :=
        { projectName := c.projectName
          moduleFormat := c.moduleFormat
          nodeCount := g.nodes.length
          connectionCount := g.connections.length
          complexity := g.complexity
          fragmentCount := a.all.length
          langfuse := c.includeLangfuse
          tests := c.includeTests
          docs := c.includeDocs
          converted
          unsupported } }

end Project

end Flowscript
