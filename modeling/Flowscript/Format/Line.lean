/-
  Flowscript.Format.Line

  What the formatting rules need to know about the lines of a program: their
  segments, their level of indentation, the bracket they leave open, and where their
  code ends.  The facts of a line follow from the line and from what the lines before
  it leave open.
-/
import Flowscript.Format.Segment

namespace Flowscript.Format

/-! ## Brackets -/

/-- An open bracket.  A brace opens a block of statements, or an object or a list of bindings. -/
inductive Bracket where
  | block
  | object
  | paren
  | square
deriving DecidableEq, Repr, Inhabited

def isCloser (c : Char) : Bool := c = ')' || c = ']' || c = '}'

/-- Characters after which a brace opens an object. -/
def opensObject (c : Char) : Bool :=
  c = '=' || c = '(' || c = '[' || c = ',' || c = ':' || c = '?'

/-- Words after which a brace opens an object or a list of bindings. -/
def objectWords : List (List Char) :=
  ["return", "import", "export", "const", "let", "var", "yield", "await"].map String.toList

/-- What a brace opens, given the text before it. -/
def braceKind (before : List Char) : Bracket :=
  match before.getLast? with
  | none => .block
  | some c =>
    if opensObject c then .object
    else if Text.endsWith ['=', '>'] before then .block
    else match (Text.words before).getLast? with
      | some w => if w ∈ objectWords then .object else .block
      | none => .block

/-- The open brackets, innermost first, each with the level of the line that opened it, and the
bracket closed last at the end of the line's code. -/
structure Brackets where
  stack : List (Bracket × Nat) := []
  lastClosed : Option Bracket := none
deriving DecidableEq, Repr, Inhabited

/-- What may stand after a closing bracket at the end of a line. -/
def endsStatement (rest : List Char) : Bool :=
  let t := Text.trim rest
  t = [] || t = [';'] || t = [',']

/-- Follows the brackets of a code segment.  `before` is the line's text before the rest of the
segment, in reverse; `later` is the text of the segments after it; `tail` is the code before the
line. -/
def Brackets.follow (level : Nat) (tail later : List Char) (b : Brackets) (before : List Char) :
    List Char → Brackets
  | [] => b
  | c :: rest =>
    let b :=
      if c = '(' then { b with stack := (.paren, level) :: b.stack }
      else if c = '[' then { b with stack := (.square, level) :: b.stack }
      else if c = '{' then
        let here := Text.trimEnd before.reverse
        let kind := braceKind (if here.isEmpty then Text.trimEnd tail else here)
        { b with stack := (kind, level) :: b.stack }
      else if isCloser c then
        let closed := b.stack.head?.map (·.1)
        { stack := b.stack.tail
          lastClosed :=
            if Text.isBlankText rest || endsStatement (rest ++ later) then closed else b.lastClosed }
      else b
    b.follow level tail later (c :: before) rest

/-- Follows the brackets of all code segments of a line. -/
def Brackets.followAll (level : Nat) (tail : List Char) (b : Brackets) (before : List Char) :
    List Segment → Brackets
  | [] => b
  | s :: ss =>
    let b := if s.kind = .code then b.follow level tail (textOf ss) before s.text else b
    b.followAll level tail (s.text.reverse ++ before) ss

/-! ## Lines -/

/-- A line with the facts the rules need.  `codeEnd` is the length of the text up to the last
character of code or literal, and zero if there is none. -/
structure Line where
  segments : List Segment
  starts : Mode
  ends : Mode
  level : Nat
  innermost : Option Bracket
  lastClosed : Option Bracket
  codeEnd : Nat
deriving DecidableEq, Repr, Inhabited

/-- The first segment that is not a comment and not blank, without blanks at its start. -/
def leadingCode (segments : List Segment) : List Char :=
  match segments.find? fun s => s.kind ≠ .comment && !Text.isBlankText s.text with
  | some s => Text.trimStart s.text
  | none => []

/-- The length of the text up to the last character that is neither comment nor blank; the
segments start at `start`, and `sofar` is the length for those before. -/
def codeEndFrom (start sofar : Nat) : List Segment → Nat
  | [] => sofar
  | s :: ss =>
    let n := (Text.trimEnd s.text).length
    codeEndFrom (start + s.text.length)
      (if s.kind ≠ .comment && 0 < n then start + n else sofar) ss

namespace Line

def text (l : Line) : List Char := textOf l.segments

def isBlank (l : Line) : Bool := Text.isBlankText l.text

def bearsCode (l : Line) : Bool := 0 < l.codeEnd

/-- The line's text up to its last character of code or literal. -/
def code (l : Line) : List Char := l.text.take l.codeEnd

/-- The last character of code or literal. -/
def finalChar? (l : Line) : Option Char := l.code.getLast?

def leadingCode (l : Line) : List Char := Format.leadingCode l.segments

end Line

/-- The closing brackets a text starts with, blanks between them passed over. -/
def leadingClosers : List Char → Nat
  | [] => 0
  | c :: rest =>
    if isCloser c then leadingClosers rest + 1
    else if Text.isBlank c then leadingClosers rest
    else 0

/-- One level more than the line that opened the innermost bracket. -/
def innerLevel (stack : List (Bracket × Nat)) : Nat :=
  match stack with
  | [] => 0
  | (_, level) :: _ => level + 1

/-- The level of a line.  A line that starts by closing brackets lines up with the line that
opened the outermost of them; a line that goes on with a method call is one level deeper; a line
inside a template literal has the level of the line before. -/
def levelOf (starts : Mode) (segments : List Segment) (stack : List (Bracket × Nat))
    (lastLevel : Nat) : Nat :=
  match starts with
  | .template => lastLevel
  | .comment => innerLevel stack
  | .code =>
    let first := leadingCode segments
    match stack.take (leadingClosers first) with
    | [] =>
      if Text.startsWith ['.'] first && !Text.startsWith ['.', '.', '.'] first then
        innerLevel stack + 1
      else innerLevel stack
    | closed => match closed.getLast? with
      | some (_, level) => level
      | none => 0

/-- What the lines so far leave to the next one. -/
structure Carry where
  mode : Mode := .code
  stack : List (Bracket × Nat) := []
  tail : List Char := []
  level : Nat := 0
deriving DecidableEq, Repr, Inhabited

/-- The facts of the next line, and what it leaves in turn. -/
def lineOf (c : Carry) (raw : List Char) : Line × Carry :=
  let scanned := scan c.mode (if c.mode = .code then Text.trimStart raw else raw)
  let segments :=
    if scanned.mode = .template then scanned.segments else trimEndSegments scanned.segments
  let level := levelOf c.mode segments c.stack c.level
  let brackets := Brackets.followAll level c.tail { stack := c.stack } [] segments
  let line : Line :=
    { segments
      starts := c.mode
      ends := scanned.mode
      level
      innermost := brackets.stack.head?.map (·.1)
      lastClosed := brackets.lastClosed
      codeEnd := codeEndFrom 0 0 segments }
  let carry : Carry :=
    { mode := scanned.mode
      stack := brackets.stack
      tail := if line.bearsCode then line.code else c.tail
      level := if c.mode = .template || line.isBlank then c.level else level }
  (line, carry)

/-- The facts of all lines. -/
def linesAfter (c : Carry) : List (List Char) → List Line
  | [] => []
  | raw :: rest =>
    let (line, c) := lineOf c raw
    line :: linesAfter c rest

end Flowscript.Format
