/-
  Flowscript.Project.Manifest

  The package manifest and the compiler options of a generated program, and the
  versions of the packages it depends on.
-/
import Flowscript.Conversion.Tracing
import Flowscript.Fragment.Assembly
import Flowscript.Json.Writer
import Flowscript.Workflow.Graph

namespace Flowscript

/-! ## Dependencies -/

namespace Dependency

/-- The packages of every program. -/
def defaults : List (String × String) := [
  ("dotenv", "^16.4.5"),
  ("langchain", "^0.2.17"),
  ("@langchain/core", "^0.2.30")]

/-- The versions of other known packages. -/
def known : List (String × String) := [
  ("@langchain/openai", "^0.2.7"),
  ("@langchain/anthropic", "^0.2.0"),
  ("@langchain/community", "^0.3.48"),
  ("@langchain/cohere", "^0.2.1"),
  ("faiss-node", "^0.5.1"),
  ("hnswlib-node", "^3.0.0"),
  ("chromadb", "^1.8.1"),
  (Tracing.package, "^3.0.0")]

/-- The version of a package. -/
def version (package : String) : String := ((defaults ++ known).lookup package).getD "^1.0.0"

/-- The packages a program needs with their versions, sorted. -/
def all (a : Assembled) (c : Context) : List (String × String) :=
  let names := defaults.map (·.1) ++ a.dependencies ++
    if c.includeLangfuse then [Tracing.package] else []
  (Text.sort (Text.distinct names)).map fun name => (name, version name)

/-- The packages for development, sorted. -/
def development (c : Context) : List (String × String) :=
  (if c.includeTests then [("@types/jest", "^29.5.12")] else []) ++
    [("@types/node", "^20.14.15")] ++
    (if c.includeTests then [("jest", "^29.7.0"), ("ts-jest", "^29.2.4")] else []) ++
    [("tsx", "^4.16.5"), ("typescript", "^5.5.4")]

end Dependency

/-! ## Manifest -/

namespace Manifest

/-- A table of texts. -/
def table (es : List (String × String)) : Value := .record (es.map fun e => (e.1, .str e.2))

/-- The commands of a program's package. -/
def scripts (c : Context) : List (String × String) := [
  ("build", "tsc"),
  ("start", "node dist/index.js"),
  ("dev", "tsx src/index.ts"),
  ("type-check", "tsc --noEmit"),
  ("test", if c.includeTests then "jest" else "echo \"No tests specified\" && exit 0")]

/-- The package manifest. -/
def ofGraph (g : Graph) (c : Context) (dependencies : List (String × String)) : Value :=
  .record <| [
    ("name", .str c.projectName),
    ("version", .str "1.0.0"),
    ("description", (g.meta? "description").getD (.str "Generated LangChain application")),
    ("type", .str (match c.moduleFormat with
      | .esm => "module"
      | .cjs => "commonjs")),
    ("main", .str "dist/index.js"),
    ("scripts", table (scripts c)),
    ("dependencies", table dependencies),
    ("devDependencies", table (Dependency.development c)),
    ("engines", table [("node", ">=18.0.0")])] ++
    if c.includeTests then [("jest", table [("preset", "ts-jest"), ("testEnvironment", "node")])]
    else []

/-- The options of the compiler. -/
def compilerOptions (f : ModuleFormat) : Value :=
  .record [
    ("compilerOptions", .record [
      ("target", .str "ES2022"),
      ("module", .str (match f with
        | .esm => "NodeNext"
        | .cjs => "CommonJS")),
      ("moduleResolution", .str (match f with
        | .esm => "NodeNext"
        | .cjs => "Node")),
      ("outDir", .str "dist"),
      ("rootDir", .str "src"),
      ("strict", .bool true),
      ("esModuleInterop", .bool true),
      ("skipLibCheck", .bool true),
      ("resolveJsonModule", .bool true)]),
    ("include", .strings ["src"]),
    ("exclude", .strings ["node_modules", "dist", "src/__tests__"])]

end Manifest

end Flowscript
