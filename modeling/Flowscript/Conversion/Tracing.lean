/-
  Flowscript.Conversion.Tracing

  Tracing in generated programs: the client that is set up before all nodes, and the
  environment variables it reads.
-/
import Flowscript.Fragment.Basic
import Flowscript.Settings.Context

namespace Flowscript

/-- An environment variable of a generated program. -/
structure EnvVariable where
  name : String
  description : String
  sample : String
  required : Bool
deriving DecidableEq, Repr, Inhabited

/-- The path by which a module of a generated program imports another one. -/
def ModuleFormat.siblingPath (f : ModuleFormat) (name : String) : String :=
  match f with
  | .esm => "./" ++ name ++ ".js"
  | .cjs => "./" ++ name

namespace Tracing

/-- The package of the tracing client. -/
def package : String := "langfuse"

/-- The environment variables of the tracing client. -/
def envVariables : List EnvVariable := [
  ⟨"LANGFUSE_PUBLIC_KEY", "Langfuse public key", "pk-lf-...", false⟩,
  ⟨"LANGFUSE_SECRET_KEY", "Langfuse secret key", "sk-lf-...", false⟩,
  ⟨"LANGFUSE_BASE_URL", "Langfuse host", "https://cloud.langfuse.com", false⟩,
  ⟨"LANGFUSE_ENABLED", "Set to false to disable tracing", "true", false⟩]

/-- The fragments that set the client up, if tracing is wanted. -/
def fragments (c : Context) : List Fragment :=
  if !c.includeLangfuse then []
  else
    let q := String.singleton c.style.quote
    [{ id := "langfuse_import"
       type := .imports
       content := "import \x7b Langfuse \x7d from " ++ q ++ "langfuse" ++ q ++ ";\n" ++
         "import \x7b langfuseConfig \x7d from " ++ q ++ c.moduleFormat.siblingPath "config" ++ q ++ ";"
       dependencies := [package]
       category := "observability"
       description := "Langfuse client" },
     { id := "langfuse_declaration"
       type := .declaration
       content := "const langfuse = new Langfuse(langfuseConfig);"
       category := "observability"
       description := "Langfuse client" }]

end Tracing

end Flowscript
