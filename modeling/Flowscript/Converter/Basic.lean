/-
  Flowscript.Converter.Basic

  Converters from one type of node to fragments of code.  A converter is a record:
  what it is called and needs, and the function that does its work.
-/
import Flowscript.Fragment.Basic
import Flowscript.Script.Literal
import Flowscript.Settings.Context
import Flowscript.Workflow.Graph
import Flowscript.Workflow.Refusal

namespace Flowscript

/-- A parameter a converter takes from its node. -/
structure ParameterRule where
  name : String
  kind : Option ParameterKind := none
  required : Bool := false
deriving DecidableEq, Repr, Inhabited

/-- What every converter is made of.  `variableSuffix` names a node's variable when the node has
none. -/
structure ConverterProfile where
  title : String := ""
  nodeType : String := ""
  category : String := ""
  aliases : List String := []
  deprecated : Bool := false
  replacement : Option String := none
  package : String := ""
  className : String := ""
  variableSuffix : String := ""
  rules : List ParameterRule := []
  dependencies : List String := []
deriving Repr, Inhabited

/-- A converter. -/
structure Converter extends ConverterProfile where
  accepts : Node → Bool := fun n => n.type = nodeType || n.type ∈ aliases
  convert : Node → Context → Except Fault (List Fragment)

instance : Inhabited Converter := ⟨{ convert := fun _ _ => .ok [] }⟩

/-! ## Values of options -/

/-- The value of an option of generated code: an expression, or a literal. -/
inductive OptionValue where
  | code (text : String)
  | literal (value : Value)
deriving Repr, Inhabited

/-- Options by name; those without a value are not written. -/
abbrev Options := List (String × Option OptionValue)

namespace OptionValue

def ofText? (s : Option String) : Option OptionValue := s.map fun s => .literal (.str s)

def ofNumber? (n : Option Number) : Option OptionValue := n.map fun n => .literal n.toValue

def ofBool? (b : Option Bool) : Option OptionValue := b.map fun b => .literal (.bool b)

def render : OptionValue → List Char
  | .code text => text.toList
  | .literal v => Script.value '\'' v

/-- The value is a literal with an integer that is too long to be written. -/
def isLong : OptionValue → Bool
  | .code _ => false
  | .literal v => v.hasLongInteger

end OptionValue

/-- One of the options is too long to be written. -/
def Options.hasLong (os : Options) : Bool := os.any fun o => o.2.any OptionValue.isLong

/-- The options that have a value, each on a line. -/
def Options.lines (os : Options) : List (List Char) :=
  os.filterMap fun (k, v?) => v?.map fun v => ' ' :: ' ' :: Script.key k.toList ++ ':' :: ' ' :: v.render

/-- An object literal with one option per line. -/
def Options.object (os : Options) : List Char :=
  if os.lines.isEmpty then ['{', '}']
  else '{' :: '\n' :: Text.joinWith [',', '\n'] os.lines ++ ['\n', '}']

/-! ## Pieces of converters -/

namespace ConverterProfile

/-- A fragment that belongs to a node. -/
def fragment (p : ConverterProfile) (n : Node) (type : FragmentKind) (content : String)
    (dependencies exports : List String) (isAsync : Bool) : Fragment :=
  { id := n.id ++ "_" ++ type.name
    type
    content
    dependencies
    nodeId := some n.id
    category := if p.category ≠ "" then p.category else n.category
    isAsync
    exports
    description := "Generated code for " ++ p.nodeType }

/-- An import of names from a package. -/
def importNames (package : String) (names : List String) : String :=
  "import \x7b " ++ Text.join ", " names ++ " \x7d from " ++ Script.quoteString '\'' package ++ ";"

/-- An import of a package's default. -/
def importDefault (package name : String) : String :=
  "import " ++ name ++ " from " ++ Script.quoteString '\'' package ++ ";"

/-- The import of the converter's class, or of the names given instead. -/
def importing (p : ConverterProfile) (n : Node) (names : List String) : Fragment :=
  let names := if names.isEmpty then [p.className] else names
  p.fragment n .imports (importNames p.package names) p.dependencies [] false

/-- The variable of a node. -/
def nameFor (p : ConverterProfile) (n : Node) : String :=
  if n.varName ≠ "" then n.varName
  else n.id ++ "_" ++ (if p.variableSuffix ≠ "" then p.variableSuffix else p.category)

/-- The declaration of a node's variable as an object of the converter's class. -/
def construct (p : ConverterProfile) (n : Node) (os : Options) : String :=
  let body := os.object
  let args := if body = ['{', '}'] then "" else String.ofList body
  "const " ++ p.nameFor n ++ " = new " ++ p.className ++ "(" ++ args ++ ");"

/-- The declaration of a node's variable from options that may not be there, or not be written. -/
def declare (p : ConverterProfile) (n : Node) (options : Except Fault Options) :
    Except Fault String := do
  let os ← options
  if os.hasLong then throw .longInteger
  pure (p.construct n os)

end ConverterProfile

/-- The environment variable of a parameter, whose name must be a text. -/
def Parameter.envName (p : Parameter) : Except Fault String :=
  match p.name with
  | .str s => .ok (String.ofList (Naming.envName s.toList))
  | s => .error (.unfit (.notText s.kindName))

/-- The expression that reads a node's first secret, if it has one. -/
def Node.secretExpression (n : Node) : Except Fault (Option String) :=
  match n.credentials with
  | [] => .ok none
  | p :: _ => p.envName.map fun e => some ("process.env." ++ e)

end Flowscript
