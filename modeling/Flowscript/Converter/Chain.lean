/-
  Flowscript.Converter.Chain

  Converters of chains.  A chain is declared at module level from the variables wired
  to its inputs and runs inside the main function; the last one to run gives the
  result.
-/
import Flowscript.Converter.Basic

namespace Flowscript.Converter

/-- The inputs at which a chain looks for its model, in this order. -/
def modelInputs : List String := ["model", "llm", "languageModel"]

/-- The first of the inputs that has a variable. -/
def firstInput? (n : Node) (names : List String) : Option String :=
  names.findSome? fun name => (n.input? name).filter (· ≠ "")

/-- The model of a chain. -/
def boundModel (className : String) (n : Node) : Except Fault String :=
  match firstInput? n modelInputs with
  | some v => .ok v
  | none => .error (.refused (.noModel className n.caption n.id))

/-- An option wired to a variable, if there is one. -/
def wired (key : String) (v? : Option String) : Options :=
  match v? with
  | some v => [(key, some (.code v))]
  | none => []

/-- A chain converter from the options of its constructor. -/
def chainConverter (nodeType className : String) (options : Node → Except Fault Options) : Converter :=
  let p : ConverterProfile :=
    { nodeType
      category := "chain"
      package := "langchain/chains"
      className
      variableSuffix := "chain"
      dependencies := ["langchain", "@langchain/core"] }
  { p with
    convert := fun n _ => do
      let v := p.nameFor n
      let declaration ← p.declare n (options n)
      pure [
        p.importing n [],
        p.fragment n .declaration declaration [] [v] false,
        p.fragment n .execution
          ("result = await " ++ v ++ ".invoke(\x7b input: input, ...options \x7d);") [] [] true,
        p.fragment n .exports ("export \x7b " ++ v ++ " \x7d;") [] [v] false] }

/-- A chain of a prompt and a model. -/
def llmChain : Converter :=
  chainConverter "llmChain" "LLMChain" fun n =>
    match n.input? "prompt" with
    | none => .error (.refused (.noPrompt n.caption n.id))
    | some prompt => do
      let model ← boundModel "LLMChain" n
      let outputKey ← (n.param "outputKey").asText
      pure <|
        [("llm", some (.code model)), ("prompt", some (.code prompt))] ++
          wired "memory" (firstInput? n ["memory"]) ++
          [("outputKey", OptionValue.ofText? outputKey),
            ("verbose", OptionValue.ofBool? (n.param "verbose").bool?)]

/-- A chain that keeps up a conversation. -/
def conversationChain : Converter :=
  chainConverter "conversationChain" "ConversationChain" fun n => do
    let model ← boundModel "ConversationChain" n
    pure <|
      [("llm", some (.code model))] ++
        wired "memory" (firstInput? n ["memory"]) ++
        wired "prompt" (firstInput? n ["chatPromptTemplate", "prompt"]) ++
        [("verbose", OptionValue.ofBool? (n.param "verbose").bool?)]

end Flowscript.Converter
