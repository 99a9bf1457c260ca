/-
  Flowscript.Import.Statement

  Import statements inside a text, in both module systems.  A statement may start
  anywhere; what stands between statements is kept as left over.
-/
import Flowscript.Text.Blank
import Flowscript.Text.Word

namespace Flowscript.Import

/-! ## Statements -/

/-- What a call of `require` is bound to. -/
inductive Binding where
  | whole (name : List Char)
  | members (body : List Char)
deriving DecidableEq, Repr, Inhabited

/-- An import statement. -/
inductive Statement where
  | bindings (isType : Bool) (clause source : List Char)
  | sideEffect (source : List Char)
  | required (binding : Binding) (source : List Char)
deriving DecidableEq, Repr, Inhabited

/-! ## Pieces of statements -/

def isQuote (c : Char) : Bool := c = '\'' || c = '"'

/-- A source in quotes, which need not be the same on both sides. -/
def quoted? (s : List Char) : Option (List Char × List Char) :=
  match s with
  | q :: rest =>
    if isQuote q then
      match rest.span (fun c => !isQuote c) with
      | ([], _) => none
      | (_, []) => none
      | (source, _ :: rest) => some (source, rest)
    else none
  | [] => none

/-- Without blanks and a semicolon at the start. -/
def skipEnd (s : List Char) : List Char :=
  match Text.trimStart s with
  | ';' :: rest => rest
  | rest => rest

/-- Without the blanks at the start, of which there is at least one. -/
def skipBlanks? (s : List Char) : Option (List Char) :=
  match s with
  | c :: rest => if Text.isBlank c then some (Text.trimStart rest) else none
  | [] => none

def startsName (c : Char) : Bool := c.isAlpha || c = '_' || c = '$'

def continuesName (c : Char) : Bool := Text.isWord c || c = '$'

/-- A name at the start of a text. -/
def name? (s : List Char) : Option (List Char × List Char) :=
  match s with
  | c :: rest =>
    if startsName c then
      let (more, rest) := rest.span continuesName
      some (c :: more, rest)
    else none
  | [] => none

/-- The whole text is a name. -/
def isName (s : List Char) : Bool :=
  match s with
  | c :: rest => startsName c && rest.all continuesName
  | [] => false

/-! ## Import declarations -/

/-- The clause of a body that has blanks at both ends; of a blank body it is empty. -/
def clause? (body : List Char) : Option (List Char) :=
  if Text.isBlankText body then if 2 ≤ body.length then some [] else none
  else if body.head?.any Text.isBlank && body.getLast?.any Text.isBlank then some (Text.trim body)
  else none

/-- The text between `import` and `from`, if the text ends with `from` and blanks. -/
def beforeFrom? (region : List Char) : Option (List Char) :=
  let t := Text.trimEnd region
  if t.length < region.length && Text.endsWith "from".toList t then some (t.take (t.length - 4))
  else none

/-- A declaration whose keyword `import` has been read. -/
def declaration? (s : List Char) : Option (Statement × List Char) := do
  let (region, rest) := s.span fun c => c ≠ ';' && !isQuote c
  let (source, rest) ← quoted? rest
  let statement ←
    if Text.isBlankText region then
      if region.isEmpty then none else some (.sideEffect source)
    else do
      let body ← beforeFrom? region
      let typed := (skipBlanks? body).bind fun b => (Text.after? "type".toList b).bind clause?
      match typed with
      | some clause => some (.bindings true clause source)
      | none => (clause? body).map fun clause => .bindings false clause source
  pure (statement, skipEnd rest)

/-! ## Calls of `require` -/

/-- A call of `require`, from its name on. -/
def call? (s : List Char) : Option (List Char × List Char) := do
  let rest ← Text.after? "require(".toList s
  let (source, rest) ← quoted? (Text.trimStart rest)
  match Text.trimStart rest with
  | ')' :: rest => some (source, skipEnd rest)
  | _ => none

/-- What a call is bound to, at the start of a text. -/
def binding? (s : List Char) : Option (Binding × List Char) :=
  match s with
  | '{' :: rest => match Text.cutAt '}' rest with
    | (body, some rest) => some (.members body, rest)
    | (_, none) => none
  | s => (name? s).map fun (name, rest) => (.whole name, rest)

/-- A declaration of a constant or variable by a call, whose keyword has been read. -/
def constant? (s : List Char) : Option (Statement × List Char) := do
  let rest ← skipBlanks? s
  let (binding, rest) ← binding? rest
  match Text.trimStart rest with
  | '=' :: rest => do
    let (source, rest) ← call? (Text.trimStart rest)
    some (.required binding source, rest)
  | _ => none

/-! ## Statements in a text -/

/-- A statement at the start of a text, and the text after it. -/
def statement? (s : List Char) : Option (Statement × List Char) :=
  match s with
  | 'i' :: _ => (Text.after? "import".toList s).bind declaration?
  | 'c' :: _ => (Text.after? "const".toList s).bind constant?
  | 'l' :: _ => (Text.after? "let".toList s).bind constant?
  | 'v' :: _ => (Text.after? "var".toList s).bind constant?
  | 'r' :: _ => (call? s).map fun (source, rest) => (.sideEffect source, rest)
  | _ => none

/-- A statement, or text between statements. -/
inductive Piece where
  | statement (s : Statement)
  | leftOver (text : List Char)
deriving DecidableEq, Repr, Inhabited

/-- The pieces of a text.  `skip` characters still belong to the last statement, and `reversed`
is the text since then, in reverse. -/
def piecesFrom (skip : Nat) (reversed : List Char) : List Char → List Piece
  | [] => [.leftOver reversed.reverse]
  | c :: rest =>
    match skip with
    | skip + 1 => piecesFrom skip reversed rest
    | 0 => match statement? (c :: rest) with
      | some (s, after) =>
        .leftOver reversed.reverse :: .statement s ::
          piecesFrom (rest.length - after.length) [] rest
      | none => piecesFrom 0 (c :: reversed) rest

/-- The statements of a text, from left to right, and the text between them. -/
def pieces (s : List Char) : List Piece := piecesFrom 0 [] s

end Flowscript.Import
