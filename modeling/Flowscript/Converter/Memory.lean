/-
  Flowscript.Converter.Memory

  Converters of conversation memories.
-/
import Flowscript.Converter.Model

namespace Flowscript.Converter

/-- The options of a memory: those every memory has, and options of its own. -/
def memoryOptions (n : Node) (extras : Options) : Except Fault Options := do
  let texts ← textOptions n ["memoryKey", "inputKey", "outputKey", "humanPrefix", "aiPrefix"]
  pure (texts ++ [boolOption n "returnMessages"] ++ extras)

/-- A memory converter; `extras` are options of its own. -/
def memoryConverter (nodeType className : String) (rules : List ParameterRule)
    (extras : Node → Options) : Converter :=
  let p : ConverterProfile :=
    { nodeType
      category := "memory"
      package := "langchain/memory"
      className
      variableSuffix := "memory"
      rules
      dependencies := ["langchain"] }
  { p with
    convert := fun n _ => do
      let declaration ← p.declare n (memoryOptions n (extras n))
      pure [
        p.importing n [],
        p.fragment n .declaration declaration [] [p.nameFor n] false] }

def bufferMemory : Converter := memoryConverter "bufferMemory" "BufferMemory" [] fun _ => []

/-- A memory of the last `k` exchanges, five unless stated. -/
def bufferWindowMemory : Converter :=
  memoryConverter "bufferWindowMemory" "BufferWindowMemory"
    [{ name := "k", kind := some .number }]
    fun n => [("k", OptionValue.ofNumber? ((n.param "k").number? <|> some (.int 5)))]

end Flowscript.Converter
