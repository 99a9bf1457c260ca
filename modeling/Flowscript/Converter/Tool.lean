/-
  Flowscript.Converter.Tool

  Converters of tools, which are made inside the main function.
-/
import Flowscript.Converter.Model

namespace Flowscript.Converter

/-- A tool converter from the arguments of its constructor. -/
def toolConverter (nodeType package className : String)
    (arguments : Node → Except Fault (List String)) : Converter :=
  let p : ConverterProfile :=
    { nodeType
      category := "tool"
      package
      className
      variableSuffix := "tool"
      dependencies := ["@langchain/community"] }
  { p with
    convert := fun n _ => do
      let args ← arguments n
      pure [
        p.importing n [],
        p.fragment n .initialization
          ("const " ++ p.nameFor n ++ " = new " ++ className ++ "(" ++ Text.join ", " args ++ ");")
          [] [] false] }

def calculator : Converter :=
  toolConverter "calculator" "@langchain/community/tools/calculator" "Calculator" fun _ => .ok []

/-- A search tool: its secret, and where to search, if either is given. -/
def serpAPI : Converter :=
  toolConverter "serpAPI" "@langchain/community/tools/serpapi" "SerpAPI" fun n => do
    let places ← textOptions n ["location", "hl", "gl"]
    let secret ← n.secretExpression
    pure <|
      if places.any (·.2.isSome) then [secret.getD "undefined", String.ofList places.object]
      else secret.toList

end Flowscript.Converter
