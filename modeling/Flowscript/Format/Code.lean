/-
  Flowscript.Format.Code

  Formatting of programs without parsing them: quotes, trailing commas and
  semicolons are adjusted line by line, lines are indented by their open brackets,
  and runs of blank lines become one.
-/
import Flowscript.Format.Line
import Flowscript.Format.Style

namespace Flowscript.Format

/-! ## Quotes -/

/-- A string literal with the wanted quotes, if its text allows them. -/
def requote (target : Char) (literal : List Char) : List Char :=
  match literal with
  | source :: rest =>
    let body := rest.dropLast
    if rest.isEmpty || source = target || rest.getLast? ≠ some source || target ∈ body || '\\' ∈ body
    then literal
    else target :: body ++ [target]
  | [] => []

/-- The segments with the wanted quotes around string literals. -/
def requoteSegments (target : Char) (segments : List Segment) : List Segment :=
  segments.map fun s => if s.kind = .string then { s with text := requote target s.text } else s

/-! ## Separators -/

/-- Characters after which a statement goes on. -/
def continuesAfter (c : Char) : Bool := "\x7b([,;:=+-*/&|?<>.!~^%".toList.contains c

/-- Texts with which a statement goes on. -/
def resumingStarts : List (List Char) :=
  [".", "?", ":", "+", "-", "*", "/", "&&", "||", "="].map String.toList

/-- Texts that would be taken as part of a statement without an end. -/
def hazardStarts : List (List Char) := [['('], ['['], ['`']]

def startsWithAny (starts : List (List Char)) (s : List Char) : Bool :=
  starts.any fun p => Text.startsWith p s

/-- The next line that has code, or that is inside a literal or a comment at its start. -/
def following? (lines : List Line) : Option Line :=
  lines.find? fun l => l.starts ≠ .code || l.bearsCode

/-- The first code of the next line. -/
def nextStart (following : Option Line) : List Char :=
  match following with
  | some l => l.leadingCode
  | none => []

/-- The line is the last one of an object or a list. -/
def isLastItem (l : Line) (following : Option Line) : Bool :=
  match l.innermost with
  | some .object => Text.startsWith ['}'] (nextStart following)
  | some .square => Text.startsWith [']'] (nextStart following)
  | _ => false

/-- Heads of statements that need no end: a word, or a condition in parentheses. -/
def opensStatement (code : List Char) : Bool :=
  let t := Text.trim code
  (["else", "try", "finally", "do"].map String.toList).contains t ||
    (startsWithAny (["if (", "for (", "while ("].map String.toList) t && Text.endsWith [')'] t)

/-- What is done at the end of a line's code. -/
inductive Edit where
  | keep
  | insert (c : Char)
  | remove
deriving DecidableEq, Repr, Inhabited

/-- The end of the line's code may be edited. -/
def isOpenEnded (l : Line) : Bool := l.bearsCode && l.ends = .code

/-- The comma after the last item of an object or a list. -/
def commaEdit (style : CodeStyle) (l : Line) (following : Option Line) : Edit :=
  if !isOpenEnded l || !isLastItem l following ||
      Text.startsWith ['.', '.', '.'] (Text.trimStart l.text) then .keep
  else
    let last := l.finalChar?.getD ' '
    if style.trailingCommas then
      if ",\x7b[(;".toList.contains last then .keep else .insert ','
    else if last = ',' then .remove else .keep

/-- The semicolon at the end of a statement. -/
def semicolonEdit (style : CodeStyle) (l : Line) (following : Option Line) : Edit :=
  if !isOpenEnded l || (l.innermost ≠ none && l.innermost ≠ some .block) ||
      Text.startsWith ['@'] l.leadingCode then .keep
  else
    let last := l.finalChar?.getD ' '
    let next := nextStart following
    if style.semicolons then
      if continuesAfter last || (last = '}' && l.lastClosed ≠ some .object) ||
          (startsWithAny resumingStarts next && !Text.startsWith ['.', '.', '.'] next) ||
          opensStatement l.code then .keep
      else .insert ';'
    else if last = ';' && Text.trim l.text ≠ [';'] && !startsWithAny hazardStarts next then .remove
    else .keep

/-- Carries out an edit after the first `codeEnd` characters of a text. -/
def Edit.apply (e : Edit) (codeEnd : Nat) (text : List Char) : List Char :=
  match e with
  | .keep => text
  | .insert c => text.take codeEnd ++ c :: text.drop codeEnd
  | .remove => text.take (codeEnd - 1) ++ text.drop codeEnd

/-- The edit of a line: at most one of the two rules applies. -/
def lineEdit (style : CodeStyle) (l : Line) (following : Option Line) : Edit :=
  match commaEdit style l following with
  | .keep => semicolonEdit style l following
  | e => e

/-- The text of a line with its quotes and separators in order.  Blank lines, and lines inside a
comment at both ends, stay as they are. -/
def lineText (style : CodeStyle) (l : Line) (following : Option Line) : List Char :=
  if l.isBlank || (l.starts = .comment && l.ends = .comment) then l.text
  else
    let requoted := { l with segments := requoteSegments style.quote l.segments }
    (lineEdit style requoted following).apply l.codeEnd requoted.text

/-! ## Indentation -/

/-- A line of output; `literal` text is inside a template literal at its start. -/
structure OutputLine where
  text : List Char
  literal : Bool
deriving DecidableEq, Repr, Inhabited

/-- A line's text, indented by its level. -/
def indentLine (style : CodeStyle) (l : Line) (text : List Char) : OutputLine :=
  let margin := Text.times l.level style.indent
  match l.starts with
  | .template => ⟨text, true⟩
  | .comment =>
    let stripped := Text.trim text
    if stripped.isEmpty then ⟨[], false⟩
    else if Text.startsWith ['*'] stripped then ⟨margin ++ ' ' :: stripped, false⟩
    else ⟨Text.trimEnd text, false⟩
  | .code => if Text.isBlankText text then ⟨[], false⟩ else ⟨margin ++ text, false⟩

/-- The lines of output. -/
def outputLines (style : CodeStyle) : List Line → List OutputLine
  | [] => []
  | l :: rest => indentLine style l (lineText style l (following? rest)) :: outputLines style rest

/-- The texts of the lines with one empty line for each run of blank ones, and none at the start
or the end.  `started` tells that a line was written, `gap` that blank lines are pending. -/
def collapse (started gap : Bool) : List OutputLine → List (List Char)
  | [] => []
  | l :: rest =>
    if l.text.isEmpty && !l.literal then collapse started true rest
    else if gap && started then [] :: l.text :: collapse true false rest
    else l.text :: collapse true false rest

/-! ## Programs -/

/-- A program in the given style. -/
def format (style : CodeStyle) (code : List Char) : List Char :=
  let lines := linesAfter {} (Text.splitOn '\n' (Text.unifyNewlines code))
  Text.joinWith ['\n'] (collapse false false (outputLines style lines)) ++ ['\n']

/-- A program in the given style. -/
def formatString (style : CodeStyle) (code : String) : String :=
  String.ofList (format style code.toList)

end Flowscript.Format
