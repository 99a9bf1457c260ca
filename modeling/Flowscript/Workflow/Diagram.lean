/-
  Flowscript.Workflow.Diagram

  Graphs as text for drawing programs: the DOT language and Mermaid flowcharts.
-/
import Flowscript.Workflow.Graph

namespace Flowscript

/-! ## DOT names -/

namespace Dot

/-- Words that DOT keeps for itself, in any case. -/
def keywords : List String := ["node", "edge", "graph", "digraph", "subgraph", "strict"]

/-- A text in angle brackets stands for markup. -/
def isMarkup (s : List Char) : Bool :=
  match s with
  | '<' :: rest => (Text.dropFinalNewline rest).getLast? = some '>' || rest.getLast? = some '>'
  | _ => false

/-- A name of letters, digits and underscores. -/
def isWordName : List Char → Bool
  | [] => false
  | c :: rest => (c.isAlpha || c = '_') && rest.all fun d => d.isAlphanum || d = '_'

/-- A number with or without a point. -/
def isNumeral (s : List Char) : Bool :=
  let s := match s with
    | '-' :: r => r
    | r => r
  let (whole, rest) := s.span Char.isDigit
  match rest with
  | [] => !whole.isEmpty
  | '.' :: places => places.all Char.isDigit && !(whole.isEmpty && places.isEmpty)
  | _ => false

/-- A text that needs no quotes. -/
def isPlainName (s : List Char) : Bool :=
  let core := Text.dropFinalNewline s
  (isWordName core || isNumeral core) && String.ofList (Text.lower s) ∉ keywords

/-- Escapes double quotes; `slashes` backslashes stand right before the text, of which a last
odd one belongs to a quote after it. -/
def escapeFrom (slashes : Nat) : List Char → List Char
  | [] => List.replicate slashes '\\'
  | c :: rest =>
    if c = '\\' then escapeFrom (slashes + 1) rest
    else if c = '"' then
      List.replicate (slashes - slashes % 2) '\\' ++ '\\' :: '"' :: escapeFrom 0 rest
    else List.replicate slashes '\\' ++ c :: escapeFrom 0 rest

/-- A name, in double quotes if it needs them. -/
def quote (s : List Char) : List Char :=
  if isMarkup s then s else if isPlainName s then s else '"' :: escapeFrom 0 s ++ ['"']

/-- The end of an edge: a node, and after colons a place on its border and a compass point. -/
def quoteEnd (s : List Char) : List Char :=
  let (node, rest?) := Text.cutAt ':' s
  let rest := rest?.getD []
  if rest.isEmpty then quote node
  else
    let (place, compass?) := Text.cutAt ':' rest
    let compass := compass?.getD []
    quote node ++ ':' :: quote place ++ (if compass.isEmpty then [] else ':' :: compass)

/-- The colour of a category. -/
def colour (category : String) : String :=
  match category with
  | "llm" => "lightblue"
  | "prompt" => "lightyellow"
  | "chain" => "lightgreen"
  | "memory" => "plum"
  | "tool" => "lightsalmon"
  | _ => "lightgrey"

def nodeLine (n : Node) : List Char :=
  let label := n.caption.toList ++ '\n' :: '(' :: n.type.toList ++ [')']
  '\t' :: quote n.id.toList ++ " [label=".toList ++ quote label ++ " fillcolor=".toList ++
    quote (colour n.category).toList ++ " shape=box style=filled]\n".toList

def edgeLine (c : Connection) : List Char :=
  '\t' :: quoteEnd c.source.toList ++ " -> ".toList ++ quoteEnd c.target.toList ++
    " [label=".toList ++ quote c.inputName.toList ++ "]\n".toList

end Dot

/-- A graph in the DOT language. -/
def Graph.toDot (g : Graph) : String :=
  String.ofList <|
    "digraph ".toList ++ Dot.quote g.name.toList ++ [' ', '{', '\n'] ++ "\trankdir=LR\n".toList ++
      g.nodes.flatMap Dot.nodeLine ++ g.connections.flatMap Dot.edgeLine ++ ['}', '\n']

/-! ## Mermaid -/

/-- A graph as a Mermaid flowchart. -/
def Graph.toMermaid (g : Graph) : String :=
  Text.join "\n" <|
    ["graph LR"] ++
      g.nodes.map (fun n =>
        let label := String.ofList (Text.replaceChar '"' ['\''] n.caption.toList)
        "    " ++ n.id ++ "[\"" ++ label ++ "\"]") ++
      g.connections.map fun c =>
        "    " ++ c.source ++ " -->|" ++ c.inputName ++ "| " ++ c.target

end Flowscript
