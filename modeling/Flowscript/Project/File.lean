/-
  Flowscript.Project.File

  The files of a generated program, each built from the graph, the options of the
  conversion and the assembled fragments.
-/
import Flowscript.Format.Code
import Flowscript.Import.Block
import Flowscript.Project.Configuration
import Flowscript.Project.Interface
import Flowscript.Project.Manifest
import Flowscript.Template.Library
import Flowscript.Workflow.Analysis

namespace Flowscript

/-- The kinds of files. -/
inductive FileKind where
  | main
  | types
  | config
  | manifest
  | env
  | test
  | docs
deriving DecidableEq, Repr, Inhabited

def FileKind.name : FileKind → String
  | .main => "main"
  | .types => "types"
  | .config => "config"
  | .manifest => "manifest"
  | .env => "env"
  | .test => "test"
  | .docs => "docs"

/-- A file of a generated program. -/
structure OutputFile where
  path : String
  kind : FileKind
  content : String
  exports : List String := []
  dependencies : List String := []
deriving DecidableEq, Repr, Inhabited

/-- The number of bytes of a file. -/
def OutputFile.size (f : OutputFile) : Nat := f.content.utf8ByteSize

namespace ProjectFile

/-! ## Values for templates -/

/-- A template rendered as the options of the conversion ask. -/
def render (c : Context) (template : String) (values : List (String × Value)) :
    Except Fault String :=
  Template.Renderer.render { quote := c.style.quote, comments := c.includeComments } template values

def interfaceValue (i : Interface) : Value :=
  .record [
    ("name", .str i.name),
    ("fields", .list (i.fields.map fun f => .record [
      ("name", .str f.name), ("optional", .bool f.optional), ("type", .str f.type)]))]

def variableValue (v : EnvVariable) : Value :=
  .record [
    ("name", .str v.name), ("description", .str v.description), ("example", .str v.sample),
    ("required", .bool v.required)]

def nodeValue (n : Node) : Value :=
  .record [
    ("display_name", .str n.caption), ("type", .str n.type), ("category", .str n.category)]

/-- The workflow's name as a text. -/
def nameText (g : Graph) : Except Fault String :=
  if g.hasLongName then .error .longInteger else .ok g.name

theorem nameText_eq_ok {g : Graph} (h : g.hasLongName = false) : nameText g = .ok g.name := by
  simp [nameText, h]

theorem nameText_eq_error {g : Graph} (h : g.hasLongName = true) :
    nameText g = .error .longInteger := if_pos h

/-- What the workflow is about: its description, or a sentence that names it. -/
def about (g : Graph) (ending : String) : Value :=
  (g.meta? "description").getD (.str ("Generated from the " ++ g.name ++ " workflow" ++ ending))

theorem hasLongInteger_about (g : Graph) (ending : String) :
    (about g ending).hasLongInteger = g.hasLongDescription := by
  rw [about, Graph.hasLongDescription]
  cases g.meta? "description" with
  | none => rfl
  | some v => rfl

/-! ## Code -/

/-- The import block of the main module. -/
def importBlock (c : Context) (a : Assembled) : String :=
  let first := "import ".toList ++ Script.quote c.style.quote "dotenv/config".toList ++ [';']
  String.ofList <| Import.blockOf c.moduleFormat c.style.quote
    (first :: (a.contents .imports).map String.toList)

/-- The main function. -/
def mainFunction (g : Graph) (c : Context) (a : Assembled) : Except Fault String := do
  let name ← nameText g
  render c "main_function" [
    ("graph_name", .str name),
    ("langfuse", .bool c.includeLangfuse),
    ("initializations", .strings (a.contents .initialization)),
    ("executions", .strings (a.contents .execution))]

/-- The main module before it is formatted. -/
def mainSource (g : Graph) (c : Context) (a : Assembled) : Except Fault String := do
  let mainFunction ← mainFunction g c a
  let description ← (about g "").text
  render c "main_file" [
    ("description", .str (String.ofList (Naming.commentText description.toList))),
    ("imports", .str (importBlock c a)),
    ("declarations", .strings (a.contents .declaration)),
    ("main_function", .str mainFunction),
    ("module_format", .str c.moduleFormat.name),
    ("exports", .strings (a.contents .exports))]

/-- The main module. -/
def main (g : Graph) (c : Context) (a : Assembled) : Except Fault OutputFile := do
  let source ← mainSource g c a
  pure
    { path := "src/index.ts"
      kind := .main
      content := Format.formatString c.style source
      exports := "main" :: a.exportedNames.filter (· ≠ "main")
      dependencies := a.dependencies }

/-- The module of interfaces before it is formatted. -/
def typesSource (g : Graph) (c : Context) : Except Fault String :=
  match g.untyped? with
  | some obstacle => .error obstacle.fault
  | none => render c "types_file" [
      ("project_name", .str c.projectName),
      ("interfaces", .list (g.interfaces.map interfaceValue))]

/-- The module of interfaces. -/
def types (g : Graph) (c : Context) : Except Fault OutputFile := do
  let source ← typesSource g c
  pure
    { path := "src/types.ts"
      kind := .types
      content := Format.formatString c.style source
      exports := g.interfaces.map (·.name) }

/-- The module of settings before it is formatted. -/
def configSource (g : Graph) (c : Context) : Except Fault String :=
  if g.hasLongSetting then .error .longInteger
  else render c "config_file" [
    ("project_name", .str c.projectName),
    ("types_import", .str (c.moduleFormat.siblingPath "types")),
    ("config", g.configuration c),
    ("langfuse", .bool c.includeLangfuse),
    ("environment", Manifest.table c.environment)]

/-- The module of settings. -/
def config (g : Graph) (c : Context) : Except Fault OutputFile := do
  let source ← configSource g c
  pure
    { path := "src/config.ts"
      kind := .config
      content := Format.formatString c.style source
      exports := ["config", "environment"] ++ if c.includeLangfuse then ["langfuseConfig"] else [] }

/-- The module of tests before it is formatted. -/
def testSource (g : Graph) (c : Context) (a : Assembled) : Except Fault String := do
  let name ← nameText g
  render c "main_test" [
    ("project_name", .str c.projectName),
    ("index_import", .str (match c.moduleFormat with
      | .esm => "../index.js"
      | .cjs => "../index")),
    ("graph_name", .str name),
    ("langfuse", .bool c.includeLangfuse),
    ("has_execution", .bool !(a.contents .execution).isEmpty)]

/-- The module of tests. -/
def test (g : Graph) (c : Context) (a : Assembled) : Except Fault OutputFile := do
  let source ← testSource g c a
  pure
    { path := "src/__tests__/index.test.ts"
      kind := .test
      content := Format.formatString c.style source }

/-! ## Project files -/

/-- A value as a JSON file, which ends with a line feed. -/
def jsonContent (l : Json.Layout) (v : Value) : Except Fault String :=
  match Json.write l v with
  | .ok text => .ok (text ++ "\n")
  | .error e => .error (.unfit (.unwritable e.message))

/-- The package manifest. -/
def manifest (g : Graph) (c : Context) (dependencies : List (String × String)) :
    Except Fault OutputFile := do
  let content ← jsonContent .readable (Manifest.ofGraph g c dependencies)
  pure
    { path := "package.json"
      kind := .manifest
      content
      dependencies := dependencies.map (·.1) }

/-- The options of the compiler. -/
def compilerOptions (c : Context) : Except Fault OutputFile := do
  let content ← jsonContent .indented (Manifest.compilerOptions c.moduleFormat)
  pure { path := "tsconfig.json", kind := .config, content }

/-- A sample of the environment. -/
def environment (g : Graph) (c : Context) : Except Fault OutputFile := do
  let env ← g.envVariables c
  let content ← render c "env_file" [("variables", .list (env.map variableValue))]
  pure { path := ".env.example", kind := .env, content }

/-- The description of a program for its readers. -/
def readme (g : Graph) (c : Context) (warnings : List String) : Except Fault OutputFile := do
  if (g.meta? "description").isNone && g.hasLongName then throw .longInteger
  let env ← g.envVariables c
  let content ← render c "readme" [
    ("project_name", .str c.projectName),
    ("description", about g "."),
    ("nodes", .list (g.nodes.map nodeValue)),
    ("complexity", .str g.complexity.name),
    ("variables", .list (env.map variableValue)),
    ("warnings", .strings warnings)]
  pure { path := "README.md", kind := .docs, content }

end ProjectFile

end Flowscript
