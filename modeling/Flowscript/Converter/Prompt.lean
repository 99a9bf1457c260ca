/-
  Flowscript.Converter.Prompt

  Converters of prompts.  Prompt texts are written as template literals.
-/
import Flowscript.Converter.Basic

namespace Flowscript.Converter

/-- The parts prompts have in common. -/
def promptProfile (nodeType className : String) (rules : List ParameterRule) : ConverterProfile :=
  { nodeType
    category := "prompt"
    package := "@langchain/core/prompts"
    className
    variableSuffix := "prompt"
    rules
    dependencies := ["@langchain/core"] }

/-- A prompt converter from the expression its variable is declared with. -/
def promptConverter (p : ConverterProfile) (expression : Node → Except Fault String) : Converter :=
  { p with
    convert := fun n _ => do
      let value ← expression n
      pure [
        p.importing n [],
        p.fragment n .declaration ("const " ++ p.nameFor n ++ " = " ++ value ++ ";") []
          [p.nameFor n] false] }

/-- A prompt from one text. -/
def promptTemplate : Converter :=
  promptConverter
    (promptProfile "promptTemplate" "PromptTemplate"
      [{ name := "template", kind := some .string, required := true }])
    fun n => do
      let template ← (n.param "template").asText
      pure ("PromptTemplate.fromTemplate(" ++
        Script.templateString (template.getD "\x7binput\x7d") ++ ")")

/-- The first text among parameters that is not empty; those after it are not looked at. -/
def firstText? (n : Node) : List String → Except Fault (Option String)
  | [] => .ok none
  | name :: names => do
    match (← (n.param name).asText).filter (· ≠ "") with
    | some text => pure (some text)
    | none => firstText? n names

/-- One message of a chat prompt. -/
def message (role text : String) : String := "  ['" ++ role ++ "', " ++ Script.templateString text ++ "]"

/-- A prompt from the messages of a chat; the message of the system may be missing. -/
def chatPromptTemplate : Converter :=
  promptConverter
    (promptProfile "chatPromptTemplate" "ChatPromptTemplate"
      [{ name := "systemMessagePrompt", kind := some .string },
        { name := "humanMessagePrompt", kind := some .string }])
    fun n => do
      let system ← firstText? n ["systemMessagePrompt", "systemMessage"]
      let human ← firstText? n ["humanMessagePrompt", "humanMessage"]
      let messages := (match system with
        | some s => [message "system" s]
        | none => []) ++ [message "human" (human.getD "\x7binput\x7d")]
      pure ("ChatPromptTemplate.fromMessages([\n" ++ Text.join ",\n" messages ++ "\n])")

end Flowscript.Converter
