/-
  Flowscript.Project.Configuration

  What a generated program is configured with: the settings in its code, which are
  read off the first language model and the first memory of the graph, and the
  environment variables it reads.
-/
import Flowscript.Conversion.Tracing
import Flowscript.Workflow.Graph
import Flowscript.Workflow.Refusal

namespace Flowscript

/-! ## Settings in code -/

namespace Graph

/-- The first node of a category. -/
def firstOf? (g : Graph) (category : String) : Option Node :=
  g.nodes.find? (·.category = category)

end Graph

namespace Configuration

/-- The first text that is not empty. -/
def firstNonempty (default : String) : List (Option String) → String
  | [] => default
  | some s :: rest => if s ≠ "" then s else firstNonempty default rest
  | none :: rest => firstNonempty default rest

/-- The temperature of a model that states none. -/
def defaultTemperature : Number := .float (Double.ofDecimal false 7 (-1))

/-- The settings of a language model. -/
def ofModel (n : Node) : Value :=
  .record [
    ("modelName", .str (firstNonempty "gpt-3.5-turbo"
      [(n.param "modelName").text?, (n.param "model").text?])),
    ("temperature", ((n.param "temperature").number?.getD defaultTemperature).toValue),
    ("maxTokens", ((n.param "maxTokens").number?.map Number.toValue).getD .null)]

/-- The settings of a memory. -/
def ofMemory (n : Node) : Value :=
  .record [
    ("type", .str n.type),
    ("memoryKey", .str ((n.param "memoryKey").text?.getD "chat_history"))]

/-- The text that names a language model is an integer too long to be written; a second name counts
only if the first one is not there or empty. -/
def hasLongModelName (n : Node) : Bool :=
  (n.param "modelName").isLong ||
    ((n.param "modelName").text?.getD "" = "" && (n.param "model").isLong)

end Configuration

/-- The settings of a graph's program. -/
def Graph.configuration (g : Graph) (c : Context) : Value :=
  .record <|
    [("app", .record [
      ("name", .str c.projectName),
      ("version", .str (((g.meta? "version").map Value.display).getD "1.0.0"))])] ++
    (match g.firstOf? "llm" with
      | some n => [("llm", Configuration.ofModel n)]
      | none => []) ++
    (match g.firstOf? "memory" with
      | some n => [("memory", Configuration.ofMemory n)]
      | none => [])

/-- One of the settings that are texts is an integer too long to be written. -/
def Graph.hasLongSetting (g : Graph) : Bool :=
  (g.meta? "version").any Value.hasLongInteger ||
    (g.firstOf? "llm").any Configuration.hasLongModelName ||
    (g.firstOf? "memory").any fun n => (n.param "memoryKey").isLong

/-! ## Environment variables -/

namespace EnvVariable

/-- Samples of well-known secrets. -/
def credentialSamples : List (String × String) := [
  ("openAIApiKey", "sk-..."),
  ("azureOpenAIApiKey", "your-azure-openai-key"),
  ("anthropicApiKey", "sk-ant-..."),
  ("pineconeApiKey", "your-pinecone-api-key"),
  ("serpApiKey", "your-serpapi-key")]

/-- The variable a secret is read from; its parameter must be named by a text. -/
def ofCredential (n : Node) (p : Parameter) : Except Fault EnvVariable :=
  match p.name with
  | .str name =>
    let about := if p.description ≠ "" then p.description else name ++ " for " ++ n.caption
    .ok
      { name := String.ofList (Naming.envName name.toList)
        description := String.ofList (Naming.commentText about.toList)
        sample := (credentialSamples.lookup name).getD "your-api-key-here"
        required := true }
  | s => .error (.unfit (.notText s.kindName))

/-- The variable of an entry of the context's environment. -/
def ofSetting (entry : String × String) : EnvVariable :=
  { name := String.ofList (Naming.envName entry.1.toList)
    description := entry.1
    sample := entry.2
    required := false }

/-- The variable that tells in which environment a program runs. -/
def runtime : EnvVariable := ⟨"NODE_ENV", "Runtime environment", "development", false⟩

/-- The variables without those whose name an earlier one has. -/
def keepFirst (seen : List String) : List EnvVariable → List EnvVariable
  | [] => []
  | v :: vs =>
    if v.name ∈ seen then keepFirst seen vs else v :: keepFirst (v.name :: seen) vs

@[simp] theorem keepFirst_nil (seen : List String) : keepFirst seen [] = [] := rfl

/-- No variable that is kept has a name that was seen. -/
theorem name_not_mem_of_mem_keepFirst {seen : List String} {vs : List EnvVariable} {v : EnvVariable}
    (h : v ∈ keepFirst seen vs) : v.name ∉ seen := by
  induction vs generalizing seen with
  | nil => simp at h
  | cons w rest ih =>
    simp only [keepFirst] at h
    split at h
    · exact ih h
    · next hw =>
      cases List.mem_cons.1 h with
      | inl e => subst e; exact hw
      | inr h => exact fun hv => ih h (List.mem_cons_of_mem _ hv)

end EnvVariable

/-- The environment variables of a graph's program: secrets first, then those of tracing, those
of the context, and the runtime's. -/
def Graph.envVariables (g : Graph) (c : Context) : Except Fault (List EnvVariable) := do
  let secrets ← (g.nodes.flatMap fun n => n.credentials.map fun p => (n, p)).mapM
    fun (n, p) => EnvVariable.ofCredential n p
  let settings := (c.environment.mergeSort fun a b => Text.le a.1 b.1).map EnvVariable.ofSetting
  let tracing := if c.includeLangfuse then Tracing.envVariables else []
  pure (EnvVariable.keepFirst [] (secrets ++ tracing ++ settings ++ [EnvVariable.runtime]))

end Flowscript
