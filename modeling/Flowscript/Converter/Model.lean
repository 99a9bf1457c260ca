/-
  Flowscript.Converter.Model

  Converters of language models.  Each model is declared at module level with its
  name, temperature, token limit, options of its own, and its secret.
-/
import Flowscript.Converter.Basic

namespace Flowscript.Converter

/-- What distinguishes one kind of language model from another. -/
structure Model where
  nodeType : String
  aliases : List String := []
  package : String
  className : String
  dependencies : List String := []
  nameKey : String := "modelName"
  secretKey : String := "apiKey"
  temperature : Option Number := some (.float (.ofDecimal false 7 (-1)))
  extras : Node → Except Fault Options := fun _ => .ok []

namespace Model

def profile (m : Model) : ConverterProfile :=
  { nodeType := m.nodeType
    category := "llm"
    aliases := m.aliases
    package := m.package
    className := m.className
    variableSuffix := "llm"
    rules := [
      { name := "modelName", kind := some .string },
      { name := "temperature", kind := some .number },
      { name := "maxTokens", kind := some .number }]
    dependencies := if m.dependencies.isEmpty then [m.package, "@langchain/core"] else m.dependencies }

/-- The options of a model, its secret last. -/
def options (m : Model) (n : Node) : Except Fault Options := do
  let name ← (n.param "modelName").asText
  let extras ← m.extras n
  let secret ← n.secretExpression
  pure <|
    [(m.nameKey, OptionValue.ofText? name),
      ("temperature", OptionValue.ofNumber? ((n.param "temperature").number? <|> m.temperature)),
      ("maxTokens", OptionValue.ofNumber? (n.param "maxTokens").number?)] ++
      extras ++
      (match secret with
        | some e => [(m.secretKey, some (.code e))]
        | none => [])

/-- The converter of a kind of model. -/
def converter (m : Model) : Converter :=
  { m.profile with
    convert := fun n _ => do
      let declaration ← m.profile.declare n (m.options n)
      pure [
        m.profile.importing n [],
        m.profile.fragment n .declaration declaration [] [m.profile.nameFor n] false] }

end Model

/-- A number among the options, under its own name. -/
def numberOption (n : Node) (name : String) : String × Option OptionValue :=
  (name, OptionValue.ofNumber? (n.param name).number?)

/-- Texts among the options, each under its own name. -/
def textOptions (n : Node) (names : List String) : Except Fault Options :=
  names.mapM fun name => do
    let text ← (n.param name).asText
    pure (name, OptionValue.ofText? text)

/-- A truth value among the options, under its own name. -/
def boolOption (n : Node) (name : String) : String × Option OptionValue :=
  (name, OptionValue.ofBool? (n.param name).bool?)

def openAI : Model :=
  { nodeType := "openAI", package := "@langchain/openai", className := "OpenAI"
    secretKey := "openAIApiKey" }

def chatOpenAI : Model :=
  { nodeType := "chatOpenAI", package := "@langchain/openai", className := "ChatOpenAI"
    secretKey := "openAIApiKey"
    extras := fun n => .ok [
      boolOption n "streaming", numberOption n "topP", numberOption n "frequencyPenalty",
      numberOption n "presencePenalty", numberOption n "timeout"] }

def anthropic : Model :=
  { nodeType := "anthropic", aliases := ["chatAnthropic"], package := "@langchain/anthropic"
    className := "ChatAnthropic", secretKey := "anthropicApiKey"
    extras := fun n => .ok [
      numberOption n "topP", numberOption n "topK", boolOption n "streaming"] }

def azureOpenAI : Model :=
  { nodeType := "azureOpenAI", aliases := ["azureChatOpenAI"], package := "@langchain/openai"
    className := "AzureOpenAI", secretKey := "azureOpenAIApiKey"
    extras := fun n => textOptions n [
      "azureOpenAIApiInstanceName", "azureOpenAIApiDeploymentName", "azureOpenAIApiVersion"] }

def ollama : Model :=
  { nodeType := "ollama", aliases := ["chatOllama"], package := "@langchain/community/llms/ollama"
    className := "Ollama", dependencies := ["@langchain/community", "@langchain/core"]
    nameKey := "model", temperature := none
    extras := fun n => do
      let baseUrl ← (n.param "baseUrl").asText
      pure [
        ("baseUrl", OptionValue.ofText? (baseUrl <|> some "http://localhost:11434")),
        numberOption n "topP"] }

def huggingFace : Model :=
  { nodeType := "huggingFace", aliases := ["huggingFaceInference_LLMs"]
    package := "@langchain/community/llms/hf", className := "HuggingFaceInference"
    dependencies := ["@langchain/community", "@langchain/core"], nameKey := "model" }

def cohere : Model :=
  { nodeType := "cohere", package := "@langchain/cohere", className := "Cohere", nameKey := "model" }

/-- The kinds of models. -/
def models : List Model :=
  [openAI, chatOpenAI, anthropic, azureOpenAI, ollama, huggingFace, cohere]

end Flowscript.Converter
