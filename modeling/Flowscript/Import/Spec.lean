/-
  Flowscript.Import.Spec

  Everything imported from one source: merging of statements by source, with values
  and types apart.
-/
import Flowscript.Import.Statement
import Flowscript.Text.LowerCase

namespace Flowscript.Import

/-- Everything imported from one source. -/
structure Spec where
  source : List Char
  isType : Bool := false
  defaults : List (List Char) := []
  namespaces : List (List Char) := []
  named : List (List Char) := []
  sideEffect : Bool := false
deriving DecidableEq, Repr, Inhabited

/-- Adds an item at the end, unless it is there. -/
def addNew (xs : List (List Char)) (x : List Char) : List (List Char) :=
  if xs.contains x then xs else xs ++ [x]

namespace Spec

def withNames (s : Spec) (names : List (List Char)) : Spec :=
  { s with named := (names.filter (fun n => !n.isEmpty)).foldl addNew s.named }

def withDefault (s : Spec) (name : List Char) : Spec := { s with defaults := addNew s.defaults name }

def withNamespace (s : Spec) (name : List Char) : Spec :=
  { s with namespaces := addNew s.namespaces name }

def bindsNames (s : Spec) : Bool :=
  !(s.defaults.isEmpty && s.namespaces.isEmpty && s.named.isEmpty)

/-- The place of a source in the block: settings first, then packages, then files, then types. -/
def group (s : Spec) : Nat :=
  if s.isType then 3
  else if s.source = "dotenv/config".toList then 0
  else if Text.startsWith ['.'] s.source || Text.startsWith ['/'] s.source then 2
  else 1

end Spec

/-! ## Clauses -/

/-- The names of a list between braces. -/
def namedItems (body : List Char) : List (List Char) :=
  ((Text.splitOn ',' body).map Text.squeeze).filter fun item => !item.isEmpty

/-- A renamed member, `a: b`, in the words of an import clause, `a as b`. -/
def renamed (item : List Char) : List Char :=
  match Text.cutAt ':' item with
  | (member, some rename) => Text.trim member ++ " as ".toList ++ Text.trim rename
  | (_, none) => item

/-- The first list in braces, and the clause without it. -/
def bracesIn? (clause : List Char) : Option (List Char × List Char) :=
  match Text.cutAt '{' clause with
  | (before, some rest) => match Text.cutAt '}' rest with
    | (body, some after) => some (body, before ++ after)
    | (_, none) => none
  | (_, none) => none

/-- A namespace at the start of a text: a star, `as` and a name. -/
def namespaceAt? (s : List Char) : Option (List Char × List Char) := do
  let rest ← Text.after? ['*'] s
  let rest ← Text.after? ['a', 's'] (Text.trimStart rest)
  let rest ← skipBlanks? rest
  name? rest

/-- The first namespace, and the clause without it. -/
def namespaceIn? : List Char → Option (List Char × List Char)
  | [] => none
  | c :: rest =>
    match namespaceAt? (c :: rest) with
    | some found => some found
    | none => (namespaceIn? rest).map fun (name, clause) => (name, c :: clause)

/-- Adds the bindings of an import clause. -/
def Spec.addClause (s : Spec) (clause : List Char) : Spec :=
  let (s, clause) := match bracesIn? clause with
    | some (body, clause) => (s.withNames (namedItems body), clause)
    | none => (s, clause)
  let (s, clause) := match namespaceIn? clause with
    | some (name, clause) => (s.withNamespace name, clause)
    | none => (s, clause)
  (((Text.splitOn ',' clause).map Text.trim).filter isName).foldl Spec.withDefault s

/-! ## Merging -/

/-- The specs so far, and the lines that belong to no statement. -/
structure Parsed where
  specs : List Spec := []
  unparsed : List (List Char) := []
deriving DecidableEq, Repr, Inhabited

/-- Changes the spec of a source, which is added at the end if it is new. -/
def updateSpec (source : List Char) (isType : Bool) (f : Spec → Spec) : List Spec → List Spec
  | [] => [f { source, isType }]
  | s :: rest =>
    if s.source = source && s.isType = isType then f s :: rest
    else s :: updateSpec source isType f rest

/-- Merges a statement. -/
def mergeStatement (specs : List Spec) : Statement → List Spec
  | .bindings isType clause source => updateSpec source isType (·.addClause clause) specs
  | .sideEffect source => updateSpec source false (fun s => { s with sideEffect := true }) specs
  | .required (.whole name) source => updateSpec source false (·.withDefault name) specs
  | .required (.members body) source =>
    updateSpec source false (·.withNames ((namedItems body).map renamed)) specs

/-- The lines of a text that are not blank, trimmed. -/
def leftOverLines (text : List Char) : List (List Char) :=
  ((Text.lines (Text.trim text)).map Text.trim).filter fun l => !l.isEmpty

def mergePiece (p : Parsed) : Piece → Parsed
  | .statement s => { p with specs := mergeStatement p.specs s }
  | .leftOver text => { p with unparsed := p.unparsed ++ leftOverLines text }

/-- Everything the texts import, by source. -/
def parse (statements : List (List Char)) : Parsed :=
  (statements.flatMap pieces).foldl mergePiece {}

end Flowscript.Import
