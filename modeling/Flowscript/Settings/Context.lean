/-
  Flowscript.Settings.Context

  The options of one conversion.
-/
import Flowscript.Settings.Field
import Flowscript.Value.Display
import Flowscript.Format.Style

namespace Flowscript

/-- The module system of generated code. -/
inductive ModuleFormat where
  | esm
  | cjs
deriving DecidableEq, Repr, Inhabited

namespace ModuleFormat

def name : ModuleFormat → String
  | .esm => "esm"
  | .cjs => "cjs"

/-- The module system of a name. -/
def ofName? : String → Option ModuleFormat
  | "esm" => some .esm
  | "cjs" => some .cjs
  | _ => none

@[simp] theorem ofName?_name (f : ModuleFormat) : ofName? f.name = some f := by
  cases f <;> rfl

/-- The module system a field names. -/
def read (v : Value) : Except FieldProblem ModuleFormat :=
  match Field.text v with
  | .ok s => match ofName? s with
    | some f => .ok f
    | none => .error .pattern
  | .error e => .error e

end ModuleFormat

/-- The options of one conversion. -/
structure Context where
  projectName : String := "generated-workflow"
  outputPath : String := "./output"
  moduleFormat : ModuleFormat := .esm
  style : CodeStyle := {}
  environment : List (String × String) := []
  includeLangfuse : Bool := false
  includeTests : Bool := false
  includeDocs : Bool := false
  includeComments : Bool := true
deriving DecidableEq, Repr, Inhabited

/-! ## Reading -/

namespace CodeStyle

/-- The widest indentation. -/
def maxIndent : Nat := 8

/-- Reads the fields of a style that are reached by `path`. -/
def readFields (path : List String) (es : Entries) : FieldReader CodeStyle := do
  let indentSize ← FieldReader.field es path "indent_size" 2 (Field.natUpTo maxIndent)
  let useSpaces ← FieldReader.field es path "use_spaces" true Field.switch
  let semicolons ← FieldReader.field es path "semicolons" true Field.switch
  let singleQuotes ← FieldReader.field es path "single_quotes" true Field.switch
  let trailingCommas ← FieldReader.field es path "trailing_commas" true Field.switch
  pure { indentSize, useSpaces, semicolons, singleQuotes, trailingCommas }

/-- A style from a mapping of its options. -/
def read (es : Entries) : Except (List FieldFault) CodeStyle := (readFields [] es).result

/-- The options of a style. -/
def toEntries (s : CodeStyle) : Entries :=
  [(.str "indent_size", .int s.indentSize), (.str "use_spaces", .bool s.useSpaces),
    (.str "semicolons", .bool s.semicolons), (.str "single_quotes", .bool s.singleQuotes),
    (.str "trailing_commas", .bool s.trailingCommas)]

end CodeStyle

namespace Context

/-- The style among the options of a conversion. -/
def readStyle (es : Entries) : FieldReader CodeStyle :=
  match es.field? "code_style" with
  | none => pure {}
  | some (.map style) => CodeStyle.readFields ["code_style"] style
  | some _ => do
    FieldReader.fail ["code_style"] .notGroup
    pure {}

/-- The texts of a table, with a fault for each value that is none. -/
def readTexts (path : List String) : Entries → FieldReader (List (String × String))
  | [] => pure []
  | (k, v) :: es => do
    let value ← match Field.text v with
      | .ok s => pure s
      | .error problem => do
        FieldReader.fail (path ++ [k.display]) problem
        pure ""
    let rest ← readTexts path es
    pure ((k.display, value) :: rest)

/-- The variables of the environment among the options of a conversion. -/
def readEnvironment (es : Entries) : FieldReader (List (String × String)) :=
  match es.field? "environment" with
  | none => pure []
  | some (.map table) => readTexts ["environment"] table
  | some _ => do
    FieldReader.fail ["environment"] .notTable
    pure []

def readFields (es : Entries) : FieldReader Context := do
  let projectName ← FieldReader.field es [] "project_name" "generated-workflow" Field.text
  let outputPath ← FieldReader.field es [] "output_path" "./output" Field.text
  let moduleFormat ← FieldReader.field es [] "module_format" .esm ModuleFormat.read
  let style ← readStyle es
  let environment ← readEnvironment es
  let includeLangfuse ← FieldReader.field es [] "include_langfuse" false Field.switch
  let includeTests ← FieldReader.field es [] "include_tests" false Field.switch
  let includeDocs ← FieldReader.field es [] "include_docs" false Field.switch
  let includeComments ← FieldReader.field es [] "include_comments" true Field.switch
  pure
    { projectName, outputPath, moduleFormat, style, environment, includeLangfuse, includeTests,
      includeDocs, includeComments }

/-- The options of a conversion from a mapping; unknown names are passed over. -/
def read (es : Entries) : Except (List FieldFault) Context := (readFields es).result

/-- The options of a conversion as a mapping. -/
def toEntries (c : Context) : Entries :=
  [(.str "project_name", .str c.projectName), (.str "output_path", .str c.outputPath),
    (.str "module_format", .str c.moduleFormat.name), (.str "code_style", .map c.style.toEntries),
    (.str "environment", .map (c.environment.map fun e => (.str e.1, .str e.2))),
    (.str "include_langfuse", .bool c.includeLangfuse), (.str "include_tests", .bool c.includeTests),
    (.str "include_docs", .bool c.includeDocs), (.str "include_comments", .bool c.includeComments)]

end Context

end Flowscript
