/-
  Flowscript.Format.Segment

  The segments of one line of code: code proper, string literals, template literals
  and comments.  A template literal or a block comment may begin on an earlier line
  and go on to a later one, so a scan starts in a mode and ends in one.  The texts
  of the segments put together are the line.
-/
import Flowscript.Text.Blank

namespace Flowscript.Format

/-! ## Segments and modes -/

/-- What a segment holds. -/
inductive SegmentKind where
  | code
  | string
  | template
  | comment
deriving DecidableEq, Repr, Inhabited

def SegmentKind.name : SegmentKind → String
  | .code => "code"
  | .string => "string"
  | .template => "template"
  | .comment => "comment"

/-- A part of a line with one kind of content. -/
structure Segment where
  kind : SegmentKind
  text : List Char
deriving DecidableEq, Repr, Inhabited

/-- What the end of a line is inside of. -/
inductive Mode where
  | code
  | template
  | comment
deriving DecidableEq, Repr, Inhabited

/-- The segments of a line and the mode it ends in. -/
structure Scan where
  segments : List Segment
  mode : Mode
deriving DecidableEq, Repr, Inhabited

/-- Puts a segment in front, unless it is empty.  The text is given in reverse. -/
def Scan.push (kind : SegmentKind) (reversed : List Char) (s : Scan) : Scan :=
  if reversed.isEmpty then s else { s with segments := ⟨kind, reversed.reverse⟩ :: s.segments }

/-! ## Scanning -/

/-- Where in a line the scan is.  A string and a line comment do not outlast the line. -/
inductive Place where
  | code
  | string (quote : Char)
  | template
  | comment
  | lineComment
deriving DecidableEq, Repr, Inhabited

namespace Place

def kind : Place → SegmentKind
  | .code => .code
  | .string _ => .string
  | .template => .template
  | .comment => .comment
  | .lineComment => .comment

/-- The mode of a line that ends here. -/
def mode : Place → Mode
  | .template => .template
  | .comment => .comment
  | _ => .code

end Place

/-- Scans the rest of a line; the second argument is the segment read so far, in reverse. -/
def scanFrom : Place → List Char → List Char → Scan
  | place, reversed, [] => Scan.push place.kind reversed ⟨[], place.mode⟩
  | .code, reversed, '/' :: '/' :: rest =>
    (scanFrom .lineComment ['/', '/'] rest).push .code reversed
  | .code, reversed, '/' :: '*' :: rest =>
    (scanFrom .comment ['*', '/'] rest).push .code reversed
  | .code, reversed, c :: rest =>
    if c = '\'' || c = '"' then (scanFrom (.string c) [c] rest).push .code reversed
    else if c = '`' then (scanFrom .template [c] rest).push .code reversed
    else scanFrom .code (c :: reversed) rest
  | .string q, reversed, '\\' :: d :: rest => scanFrom (.string q) (d :: '\\' :: reversed) rest
  | .string q, reversed, c :: rest =>
    if c = q then (scanFrom .code [] rest).push .string (c :: reversed)
    else scanFrom (.string q) (c :: reversed) rest
  | .template, reversed, '\\' :: d :: rest => scanFrom .template (d :: '\\' :: reversed) rest
  | .template, reversed, c :: rest =>
    if c = '`' then (scanFrom .code [] rest).push .template (c :: reversed)
    else scanFrom .template (c :: reversed) rest
  | .comment, reversed, '*' :: '/' :: rest =>
    (scanFrom .code [] rest).push .comment ('/' :: '*' :: reversed)
  | .comment, reversed, c :: rest => scanFrom .comment (c :: reversed) rest
  | .lineComment, reversed, c :: rest => scanFrom .lineComment (c :: reversed) rest

/-- Where a line starts, given the mode the line before ended in. -/
def Mode.place : Mode → Place
  | .code => .code
  | .template => .template
  | .comment => .comment

/-- The segments of a line that starts in a mode. -/
def scan (mode : Mode) (line : List Char) : Scan := scanFrom mode.place [] line

@[simp] theorem scan_nil (mode : Mode) : scan mode [] = ⟨[], mode⟩ := by
  cases mode <;> rfl

/-! ## Views -/

/-- The text of segments put together. -/
def textOf (segments : List Segment) : List Char := segments.flatMap (·.text)

@[simp] theorem textOf_nil : textOf [] = [] := rfl

@[simp] theorem textOf_cons (s : Segment) (ss : List Segment) :
    textOf (s :: ss) = s.text ++ textOf ss := by simp [textOf]

/-- The segments with the places where they start and end, when the first starts at `start`. -/
def spans (start : Nat) : List Segment → List (SegmentKind × Nat × Nat)
  | [] => []
  | s :: ss => (s.kind, start, start + s.text.length) :: spans (start + s.text.length) ss

/-- Without the white space at the end of the last segments. -/
def trimEndSegments : List Segment → List Segment
  | [] => []
  | s :: ss =>
    match trimEndSegments ss with
    | [] =>
      let t := Text.trimEnd s.text
      if t.isEmpty then [] else [{ s with text := t }]
    | rest => s :: rest

end Flowscript.Format
