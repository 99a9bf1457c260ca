/-
  Flowscript.Workflow.Source

  Graphs from texts and files.  A file whose name ends in `.json` holds JSON, every
  other one YAML; a workflow without a name has that of its file.
-/
import Flowscript.Json.Reader
import Flowscript.Workflow.Document
import Flowscript.Yaml.Reader

namespace Flowscript

/-! ## Paths -/

namespace Pathname

/-- The parts of a path between slashes; empty ones and single dots say nothing. -/
def parts (path : String) : List (List Char) :=
  (Text.splitOn '/' path.toList).filter fun p => !p.isEmpty && p ≠ ['.']

/-- A path in its plain form. -/
def normal (path : String) : String :=
  let plain := String.ofList (Text.joinWith ['/'] (parts path))
  if path.startsWith "/" then "/" ++ plain else if plain = "" then "." else plain

/-- A path below another one; a path from the root stands for itself. -/
def join (path below : String) : String :=
  normal (if below.startsWith "/" then below else path ++ "/" ++ below)

/-- The last part of a path. -/
def fileName (path : String) : List Char := (parts path).getLastD []

/-- Where the suffix of a file name starts: at its last point, if text stands on both sides. -/
def suffixStart (name : List Char) : Option Nat :=
  let after := name.reverse.takeWhile (· ≠ '.')
  let start := name.length - after.length
  if after.isEmpty || start < 2 then none else some (start - 1)

/-- The suffix of a path, with its point. -/
def suffix (path : String) : String :=
  let name := fileName path
  String.ofList (match suffixStart name with
    | some n => name.drop n
    | none => [])

/-- The last part of a path without its suffix. -/
def stem (path : String) : String :=
  let name := fileName path
  String.ofList (match suffixStart name with
    | some n => name.take n
    | none => name)

end Pathname

/-! ## Texts -/

/-- The fault a problem of a text leads to: a refusal of the document, or a value that does not
exist. -/
def Yaml.Problem.fault (p : Yaml.Problem) : Fault :=
  match p with
  | .codeTooLarge | .badNumber _ | .impossibleTime _ => .malformed
  | .emptyNumber => .absentItem
  | .badSwitch _ => .absentKey
  | .badTime _ => .noFields
  | .timeInMapping => .unfit .shape
  | .endlessScalar | .tooDeep => .endless
  | p => .document (.unreadable p.message)

namespace Source

/-- The graph of a text. -/
def ofText (text : String) : Except Fault Graph :=
  match Yaml.read text.toList with
  | .ok v => Document.graph v
  | .error p => .error p.fault

/-- The graph of a JSON text from a file. -/
def ofJson (path text : String) : Except Fault Graph :=
  match Json.read text.toList with
  | .ok v => Document.graph v
  | .error .malformed => .error (.document (.malformedJson (Pathname.normal path) "no JSON value"))
  | .error .longInteger => .error .malformed
  | .error .tooDeep => .error .endless

/-- The graph with a name, unless it has an entry for one. -/
def named (name : String) (g : Graph) : Graph :=
  if g.metadata.has (.str "name") then g
  else { g with metadata := g.metadata ++ [(.str "name", .str name)] }

/-- The graph of a file with this content, if the file exists. -/
def ofFile (path : String) (content? : Option String) : Except Fault Graph :=
  match content? with
  | none => .error (.fileNotFound (Pathname.normal path))
  | some content =>
    let text := String.ofList (Text.unifyNewlines content.toList)
    let graph := if Pathname.suffix path = ".json" then ofJson path text else ofText text
    graph.map (named (Pathname.stem path))

end Source

end Flowscript
