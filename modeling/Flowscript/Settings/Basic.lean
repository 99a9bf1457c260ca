/-
  Flowscript.Settings.Basic

  The settings of the program.  Each has a default, which a variable of the
  environment file, a variable of the environment and a given value override, in this
  order of rising strength.
-/
import Flowscript.Log.Basic
import Flowscript.Settings.Context
import Flowscript.Settings.Dotenv
import Flowscript.Text.LowerCase
import Flowscript.Workflow.Order

namespace Flowscript

/-- The settings of the program. -/
structure Settings where
  appName : String := "flowgen"
  environment : String := "development"
  debug : Bool := false
  logLevel : String := "WARNING"
  logFormat : LogFormat := .console
  projectName : String := "generated-workflow"
  outputDir : String := "./output"
  moduleFormat : ModuleFormat := .esm
  strategy : Strategy := .depthFirst
  style : CodeStyle := {}
  enableLangfuse : Bool := false
  enableTests : Bool := false
  enableDocs : Bool := false
  enableComments : Bool := true
deriving DecidableEq, Repr, Inhabited

namespace Settings

/-- The names of all settings, in order. -/
def names : List String := [
  "app_name", "environment", "debug", "log_level", "log_format", "project_name", "output_dir",
  "module_format", "ordering_strategy", "indent_size", "use_spaces", "semicolons",
  "single_quotes", "trailing_commas", "enable_langfuse", "enable_tests", "enable_docs",
  "enable_comments"]

/-- What the names of the program's environment variables start with. -/
def variablePrefix : String := "flowgen_"

/-! ## Reading -/

/-- The strategy a field names. -/
def readStrategy (v : Value) : Except FieldProblem Strategy :=
  match Field.text v with
  | .ok s => (Strategy.ofName s).mapError fun _ => .pattern
  | .error e => .error e

/-- The log format a field names. -/
def readLogFormat (v : Value) : Except FieldProblem LogFormat :=
  match Field.text v with
  | .ok s => match LogFormat.ofName? s with
    | some f => .ok f
    | none => .error .pattern
  | .error e => .error e

def readFields (es : Entries) : FieldReader Settings := do
  let appName ← FieldReader.field es [] "app_name" "flowgen" Field.text
  let environment ← FieldReader.field es [] "environment" "development" Field.text
  let debug ← FieldReader.field es [] "debug" false Field.switch
  let logLevel ← FieldReader.field es [] "log_level" "WARNING" Field.text
  let logFormat ← FieldReader.field es [] "log_format" .console readLogFormat
  let projectName ← FieldReader.field es [] "project_name" "generated-workflow" Field.text
  let outputDir ← FieldReader.field es [] "output_dir" "./output" Field.text
  let moduleFormat ← FieldReader.field es [] "module_format" .esm ModuleFormat.read
  let strategy ← FieldReader.field es [] "ordering_strategy" .depthFirst readStrategy
  let style ← CodeStyle.readFields [] es
  let enableLangfuse ← FieldReader.field es [] "enable_langfuse" false Field.switch
  let enableTests ← FieldReader.field es [] "enable_tests" false Field.switch
  let enableDocs ← FieldReader.field es [] "enable_docs" false Field.switch
  let enableComments ← FieldReader.field es [] "enable_comments" true Field.switch
  pure
    { appName, environment, debug, logLevel, logFormat, projectName, outputDir, moduleFormat,
      strategy, style, enableLangfuse, enableTests, enableDocs, enableComments }

/-- Puts the settings among variables over others; names are compared without regard to case. -/
def adopt (env : List (String × String)) (es : Entries) : Entries :=
  env.foldl
    (fun es (name, value) =>
      match Text.after? variablePrefix.toList (Text.lower name.toList) with
      | some field =>
        if String.ofList field ∈ names then es.insert (.str (String.ofList field)) (.str value) else es
      | none => es)
    es

/-- The settings given by an environment file, environment variables and values. -/
def read (file : Option String) (env : List (String × String)) (values : Entries) :
    Except (List FieldFault) Settings :=
  let fromFile := adopt ((file.map (Dotenv.read env)).getD []) []
  let fromBoth := adopt env fromFile
  (readFields (values.foldl (fun es e => es.insert e.1 e.2) fromBoth)).result

/-! ## Use -/

/-- The settings as a mapping. -/
def toEntries (s : Settings) : Entries :=
  [(.str "app_name", .str s.appName), (.str "environment", .str s.environment),
    (.str "debug", .bool s.debug), (.str "log_level", .str s.logLevel),
    (.str "log_format", .str s.logFormat.name), (.str "project_name", .str s.projectName),
    (.str "output_dir", .str s.outputDir), (.str "module_format", .str s.moduleFormat.name),
    (.str "ordering_strategy", .str s.strategy.name)] ++
    s.style.toEntries ++
    [(.str "enable_langfuse", .bool s.enableLangfuse), (.str "enable_tests", .bool s.enableTests),
      (.str "enable_docs", .bool s.enableDocs), (.str "enable_comments", .bool s.enableComments)]

/-- The features that are on. -/
def features (s : Settings) : List String :=
  ([("langfuse", s.enableLangfuse), ("tests", s.enableTests), ("docs", s.enableDocs),
    ("comments", s.enableComments)].filter (·.2)).map (·.1)

/-- The options of a conversion that the settings give. -/
def baseContext (s : Settings) : Context :=
  { projectName := s.projectName
    outputPath := s.outputDir
    moduleFormat := s.moduleFormat
    style := s.style
    includeLangfuse := s.enableLangfuse
    includeTests := s.enableTests
    includeDocs := s.enableDocs
    includeComments := s.enableComments }

/-- The options of a conversion with some of them overridden; a null overrides nothing. -/
def context (s : Settings) (overrides : Entries) : Except (List FieldFault) Context :=
  let given := overrides.filter fun e => !e.2.isNull
  Context.read (given.foldl (fun es e => es.insert e.1 e.2) s.baseContext.toEntries)

end Settings

end Flowscript
