/-
  Flowscript.Command.Program

  The commands of the program: converting a workflow, checking one, drawing one, and
  listing the converters.
-/
import Flowscript.Command.Arguments
import Flowscript.Command.Session
import Flowscript.Conversion.Convert
import Flowscript.Settings.Basic
import Flowscript.Workflow.Diagram
import Flowscript.Workflow.Source

namespace Flowscript.Command

open Session

/-- The version of the program. -/
def version : String := "1.0.0"

/-! ## Options -/

def helpOption : OptionSpec := { name := "help", forms := ["--help"] }

/-- The options of the program. -/
def topOptions : List OptionSpec := [{ name := "version", forms := ["--version"] }, helpOption]

/-- The options before the name of a command. -/
def generateOptions : List OptionSpec := [
  { name := "verbose", forms := ["--verbose", "-v"] },
  { name := "log-format", forms := ["--log-format"], takesValue := true },
  helpOption]

/-- The options of the command that converts. -/
def convertOptions : List OptionSpec := [
  { name := "output", forms := ["--output", "-o"], takesValue := true },
  { name := "project-name", forms := ["--project-name"], takesValue := true },
  { name := "langfuse", forms := ["--langfuse"] },
  { name := "tests", forms := ["--tests"] },
  { name := "docs", forms := ["--docs"] },
  { name := "module-format", forms := ["--module-format"], takesValue := true },
  { name := "force", forms := ["--force", "-f"] },
  { name := "dry-run", forms := ["--dry-run"] },
  helpOption]

/-- The options of the command that checks. -/
def validateOptions : List OptionSpec := [{ name := "json", forms := ["--json"] }, helpOption]

/-- The options of the command that lists converters. -/
def convertersOptions : List OptionSpec := [
  { name := "category", forms := ["--category", "-c"], takesValue := true }, helpOption]

/-- The options of the command that draws. -/
def graphOptions : List OptionSpec := [
  { name := "format", forms := ["--format"], takesValue := true }, helpOption]

/-- The options and arguments of a command; help ends it. -/
def arguments (specs : List OptionSpec) (mixed : Bool) (usage : String) (words : List String) :
    Session Arguments :=
  match parse? specs mixed {} words with
  | none => .stop .usage
  | some a =>
    if a.has "help" then do
      say ("Usage: " ++ usage)
      .stop .success
    else .done a

/-- The value of an option must be one of some words. -/
def choice (a : Arguments) (name : String) (words : List String) : Session Unit :=
  match a.value? name with
  | some v => if v ∈ words then .done () else .stop .usage
  | none => .done ()

/-- The one argument of a command, which must be an existing file. -/
def fileArgument (a : Arguments) : Session String :=
  match a.positional with
  | [path] => do
    match ← kindOf path with
    | .file => pure path
    | _ => .stop .usage
  | _ => .stop .usage

/-! ## Pieces of commands -/

/-- A list of items, one on a line. -/
def bullets (items : List String) : Session Unit := each (fun i => say ("   • " ++ i)) items

/-- The graph of a file; a document that is refused ends the command. -/
def load (path : String) : Session Graph := do
  let content ← contentOf path
  match Source.ofFile path (some content) with
  | .ok g => pure g
  | .error (.refused r) =>
    complain ("❌ Could not load " ++ Pathname.normal path ++ ": " ++ r.text)
    .stop .failure
  | .error f => .stop (.fault f)

/-- A value as text; one without JSON form ends the command. -/
def sayJson (v : Value) : Session Unit :=
  match Json.write .indented v with
  | .ok text => say text
  | .error e => .stop (.fault (.unfit (.unwritable e.message)))

/-! ## Converting -/

/-- What the command line asks of a conversion. -/
structure ConvertRequest where
  path : String
  output : Option String := none
  projectName : Option String := none
  langfuse : Bool := false
  tests : Bool := false
  docs : Bool := false
  moduleFormat : Option ModuleFormat := none
  force : Bool := false
  dryRun : Bool := false
deriving DecidableEq, Repr, Inhabited

/-- The name of the generated package: the one asked for, one made from the workflow's name while
the settings have the default, or that of the settings. -/
def packageName (s : Settings) (r : ConvertRequest) (g : Graph) : String :=
  match r.projectName.filter (· ≠ "") with
  | some name => name
  | none =>
    let made := String.ofList (Naming.kebabCase g.name.toList)
    if s.projectName = "generated-workflow" && made ≠ "" then made else s.projectName

/-- The directory a project is written to. -/
def outputPath (s : Settings) (r : ConvertRequest) (name : String) : String :=
  match r.output with
  | some path => Pathname.normal path
  | none => Pathname.join s.outputDir name

/-- The options of a conversion. -/
def contextOf (s : Settings) (r : ConvertRequest) (g : Graph) : Context :=
  let name := packageName s r g
  { s.baseContext with
    projectName := name
    outputPath := outputPath s r name
    moduleFormat := r.moduleFormat.getD s.moduleFormat
    includeLangfuse := r.langfuse || s.enableLangfuse
    includeTests := r.tests || s.enableTests
    includeDocs := r.docs || s.enableDocs }

/-- Refuses an output directory that has files in it. -/
def checkOutput (output : String) (force : Bool) : Session Unit := do
  match ← kindOf output with
  | .file => .stop (.file .notDirectory)
  | .directory false =>
    if force then pure ()
    else
      complain ("❌ Output directory " ++ output ++ " is not empty. Use --force to overwrite.")
      .stop .failure
  | _ => pure ()

/-- Lists the files of a project. -/
def listFiles (output : String) (p : Project) : Session Unit := do
  say ("📝 Would write " ++ Text.ofNat p.files.length ++ " files to " ++ output ++ ":")
  bullets (p.files.map fun f => f.path ++ " (" ++ Text.ofNat f.size ++ " bytes)")

/-- Writes the files of a project. -/
def writeFiles (verbose : Bool) (output : String) (p : Project) : Session Unit := do
  say ("🏗️  Writing project to: " ++ output)
  each
    (fun f => do
      put (Pathname.join output f.path) f.content
      if verbose then say ("   📄 " ++ f.path))
    p.files

/-- Reports the files that could not be built, which ends the command. -/
def reportErrors (p : Project) : Session Unit := do
  if p.errors.isEmpty then pure ()
  else
    say ("❌ " ++ Text.ofNat p.errors.length ++ " files could not be generated:")
    bullets p.errors
    .stop .failure

/-- Reports the warnings of a conversion. -/
def reportWarnings (p : Project) : Session Unit := do
  if p.warnings.isEmpty then pure ()
  else
    say ("⚠️  " ++ Text.ofNat p.warnings.length ++ " warnings:")
    bullets p.warnings

/-- The project of a graph; a conversion that is refused ends the command. -/
def project (s : Settings) (g : Graph) (c : Context) : Session Project :=
  match Registry.standard.convert s.strategy g c with
  | .ok p => .done p
  | .error (.refused r) => do
    complain ("❌ Conversion failed: " ++ r.text)
    .stop .failure
  | .error f => .stop (.fault f)

/-- Converts a workflow. -/
def convert (s : Settings) (verbose : Bool) (r : ConvertRequest) : Session Unit := do
  say ("📖 Loading workflow: " ++ Pathname.normal r.path)
  let g ← load r.path
  let c := contextOf s r g
  let p ← project s g c
  say ("✅ Converted " ++ Text.ofNat p.facts.nodeCount ++ " nodes, " ++
    Text.ofNat p.facts.connectionCount ++ " connections (" ++ p.facts.complexity.name ++ ")")
  reportWarnings p
  if r.dryRun then listFiles c.outputPath p
  else
    checkOutput c.outputPath r.force
    writeFiles verbose c.outputPath p
  reportErrors p
  if !r.dryRun then
    each say [
      "\n🎉 Done! Next steps:",
      "   1. cd " ++ c.outputPath,
      "   2. npm install",
      "   3. cp .env.example .env",
      "   4. npm run dev"]

/-- Reads the command line of a conversion; an output that is a file is refused. -/
def convertRequest (words : List String) : Session ConvertRequest := do
  let a ← arguments convertOptions true "flowgen generate convert [OPTIONS] WORKFLOW_FILE" words
  choice a "module-format" ["esm", "cjs"]
  let path ← fileArgument a
  let output := a.value? "output"
  match output with
  | some o =>
    if (← kindOf o) = .file then .stop .usage
  | none => pure ()
  pure
    { path, output
      projectName := a.value? "project-name"
      langfuse := a.has "langfuse"
      tests := a.has "tests"
      docs := a.has "docs"
      moduleFormat := (a.value? "module-format").bind ModuleFormat.ofName?
      force := a.has "force"
      dryRun := a.has "dry-run" }

/-! ## Checking -/

/-- A report as a mapping. -/
def reportValue (r : Report) (unsupported : List String) : Value :=
  .record [
    ("valid", .bool r.isValid),
    ("errors", .list (r.errors.map Refusal.toValue)),
    ("parameter_errors", .list (r.parameterErrors.map fun e => e.refusal.toValue)),
    ("warnings", .strings r.warnings),
    ("unsupported", .strings unsupported)]

/-- A report in words. -/
def sayReport (g : Graph) (r : Report) (unsupported : List String) : Session Unit := do
  if g.hasLongName then .stop (.fault .malformed)
  say ("🔍 Validating workflow: " ++ g.name)
  say ("   🔧 Nodes: " ++ Text.ofNat g.nodes.length)
  say ("   🔗 Connections: " ++ Text.ofNat g.connections.length)
  each (fun e => say ("❌ " ++ e.text)) r.errors
  each (fun e => say ("⚠️  " ++ e.refusal.text)) r.parameterErrors
  each (fun w => say ("⚠️  " ++ w)) r.warnings
  if !unsupported.isEmpty then
    say ("⚠️  Unsupported node types (placeholders will be generated): " ++
      Text.join ", " unsupported)
  if r.isValid then say "✅ Workflow is valid"

/-- Checks a workflow. -/
def validate (words : List String) : Session Unit := do
  let a ← arguments validateOptions true "flowgen generate validate [OPTIONS] WORKFLOW_FILE" words
  let path ← fileArgument a
  let g ← load path
  let report := Registry.standard.check g
  if report.hasLongParameter then .stop (.fault .malformed)
  let unsupported := Registry.standard.unsupported g.nodes
  if a.has "json" then sayJson (reportValue report unsupported)
  else sayReport g report unsupported
  if !report.isValid then .stop .failure

/-! ## Listing and drawing -/

/-- The line of a converter. -/
def converterLine (r : Registry) (c : Converter) : String :=
  let names := (r.sortedAliases.filter (·.2 = c.nodeType)).map (·.1)
  "   • " ++ c.nodeType ++ " [" ++ c.category ++ "]" ++
    (if names.isEmpty then "" else " (aliases: " ++ Text.join ", " names ++ ")") ++
    (if c.deprecated then " ⚠️ deprecated" else "")

/-- Lists the converters. -/
def converters (words : List String) : Session Unit := do
  let a ← arguments convertersOptions true "flowgen generate converters [OPTIONS]" words
  if !a.positional.isEmpty then .stop .usage
  let r := Registry.standard
  let chosen := match (a.value? "category").filter (· ≠ "") with
    | some category => r.ofCategory category
    | none => r.types.filterMap r.get?
  if chosen.isEmpty then say "No converters found"
  else
    say ("🔌 " ++ Text.ofNat chosen.length ++ " converters:")
    each (fun c => say (converterLine r c)) chosen
    say ("\n📊 " ++ Text.ofNat r.converters.length ++ " converters, " ++
      Text.ofNat r.aliases.length ++ " aliases")

/-- Draws a workflow. -/
def graph (words : List String) : Session Unit := do
  let a ← arguments graphOptions true "flowgen generate graph [OPTIONS] WORKFLOW_FILE" words
  choice a "format" ["dot", "mermaid", "json"]
  let path ← fileArgument a
  let g ← load path
  match a.value? "format" with
  | some "dot" => if g.hasLongName then .stop (.fault .malformed) else say g.toDot
  | some "json" => sayJson g.analysis.toValue
  | _ => say g.toMermaid

/-! ## The program -/

/-- The commands. -/
inductive Name where
  | convert
  | validate
  | converters
  | graph
deriving DecidableEq, Repr, Inhabited

/-- The command of a name. -/
def Name.ofString? : String → Option Name
  | "convert" => some .convert
  | "validate" => some .validate
  | "converters" => some .converters
  | "graph" => some .graph
  | _ => none

/-- The settings given by the environment file, if there is one, and the environment. -/
def settings (env : List (String × String)) : Session Settings := do
  let file ← match ← kindOf ".env" with
    | .file => some <$> contentOf ".env"
    | _ => pure none
  match Settings.read file env [] with
  | .ok s => pure s
  | .error faults => .stop (.badSettings faults)

/-- Runs a command. -/
def command (s : Settings) (verbose : Bool) (name : Name) (words : List String) : Session Unit := do
  match name with
  | .convert => convert s verbose (← convertRequest words)
  | .validate => validate words
  | .converters => converters words
  | .graph => graph words

/-- The group of all commands: its own options come before the command's name. -/
def generate (env : List (String × String)) (words : List String) : Session Unit := do
  let a ← arguments generateOptions false "flowgen generate [OPTIONS] COMMAND [ARGS]..." words
  choice a "log-format" ["console", "json"]
  match a.positional with
  | [] => .stop .usage
  | word :: rest => match Name.ofString? word with
    | none => .stop .usage
    | some name =>
      let s ← settings env
      let verbose := a.has "verbose"
      if verbose then
        let features := if s.features.isEmpty then "none" else Text.join ", " s.features
        say ("⚙️  Features enabled by default: " ++ features)
      command s verbose name rest

/-- The program with its arguments and environment variables. -/
def program (env : List (String × String)) (words : List String) : Session Unit :=
  match parse? topOptions false {} words with
  | none => .stop .usage
  | some a => match a.firstOf? ["version", "help"] with
    | some "version" => do
      say ("cli, version " ++ version)
      .stop .success
    | some _ => do
      say "Usage: flowgen [OPTIONS] COMMAND [ARGS]..."
      .stop .success
    | none => match a.positional with
      | "generate" :: rest => generate env rest
      | _ => .stop .usage

end Flowscript.Command
