/-
  Flowscript.Yaml.Block

  Block scalars, literal and folded: a header, then all lines that are indented as far
  as the first one.
-/
import Flowscript.Yaml.Place
import Flowscript.Yaml.Problem

namespace Flowscript.Yaml

/-! ## Header -/

/-- What becomes of line breaks at the end. -/
inductive Chomp where
  | strip
  | clip
  | keep
deriving DecidableEq, Repr, Inhabited

/-- The header of a block scalar. -/
structure BlockHeader where
  chomp : Chomp := .clip
  increment : Option Nat := none
deriving DecidableEq, Repr, Inhabited

def chompOf? (c : Char) : Option Chomp :=
  if c = '+' then some .keep else if c = '-' then some .strip else none

/-- The mark of line breaks at the end, if there is one. -/
def takeChomp : List Char → Option Chomp × List Char
  | [] => (none, [])
  | c :: rest => match chompOf? c with
    | some k => (some k, rest)
    | none => (none, c :: rest)

/-- The digit that tells the indentation, if there is one. -/
def takeIncrement : List Char → Option Nat × List Char
  | [] => (none, [])
  | c :: rest => if c.isDigit then (some (c.toNat - 48), rest) else (none, c :: rest)

/-- The marks of a header, in either order. -/
def takeHeader (s : List Char) : BlockHeader × List Char :=
  match takeChomp s with
  | (some chomp, r) =>
    let (increment, r) := takeIncrement r
    ({ chomp, increment }, r)
  | (none, r) =>
    let (increment, r) := takeIncrement r
    if increment.isNone then ({}, r)
    else
      let (chomp?, r) := takeChomp r
      ({ chomp := chomp?.getD .clip, increment }, r)

/-- The rest of a line that holds only spaces and a comment, with its line break. -/
def blankLine? (p : Place) (s : List Char) : Option (Scanned Unit) :=
  let spaces := takeAlong (· = ' ') p s
  let note := match spaces.rest with
    | '#' :: _ => (takeAlong (fun c => !isBreak c) spaces.place spaces.rest).map fun _ => ()
    | _ => spaces.map fun _ => ()
  if lineEnds note.rest then some (skipBreak note.place note.rest) else none

/-- A header to the end of its line. -/
def blockHeader (p : Place) (s : List Char) : Except Problem (Scanned BlockHeader) :=
  let (header, r) := takeHeader s
  if header.increment = some 0 || !wordEnds r then .error .badHeader
  else match blankLine? (p.along (s.take (s.length - r.length))) r with
    | some rest => .ok (rest.map fun _ => header)
    | none => .error .badHeader

/-! ## Lines -/

/-- The line breaks before the first line, and the widest indentation among them. -/
structure Leading where
  breaks : List Char := []
  widest : Nat := 0
deriving Repr, Inhabited

/-- Reads spaces and line breaks. -/
def leading (l : Leading) (p : Place) : List Char → Scanned Leading
  | [] => ⟨l, p, []⟩
  | c :: rest =>
    let p' := p.next c rest
    if c = ' ' then leading { l with widest := max l.widest p'.column } p' rest
    else if isBreak c then
      if isHalfBreak c rest then leading l p' rest
      else leading { l with breaks := l.breaks ++ [breakChar c] } p' rest
    else ⟨l, p, c :: rest⟩

/-- The line before: its line break, and whether it starts with a word. -/
structure LineEnd where
  lineBreak : Char
  startsWithWord : Bool
deriving Repr, Inhabited

/-- Where reading of a block scalar stands: in the margin before a line, after some empty lines,
or in a line. -/
inductive BlockState where
  | margin (breaks : List Char) (last : Option LineEnd)
  | line (startsWithWord : Bool)
deriving Repr, Inhabited

/-- What is left of the line breaks at the end. -/
def BlockState.ending (chomp : Chomp) : BlockState → List Char
  | .line _ => []
  | .margin breaks last =>
    (if chomp = .strip then [] else (last.map (·.lineBreak)).toList) ++
      if chomp = .keep then breaks else []

/-- What stands between the line before and a line that starts with `c`. -/
def joint (folded : Bool) (breaks : List Char) (c : Char) : Option LineEnd → List Char
  | none => []
  | some e =>
    if folded && e.lineBreak = '\n' && e.startsWithWord && !isSpace c then
      if breaks.isEmpty then [' '] else []
    else [e.lineBreak]

/-- The text of a block scalar with the given indentation. -/
def blockText (folded : Bool) (chomp : Chomp) (indent : Nat) (st : BlockState) (p : Place) :
    List Char → Scanned (List Char)
  | [] => ⟨st.ending chomp, p, []⟩
  | c :: rest =>
    let p' := p.next c rest
    if isBreak c && isHalfBreak c rest then blockText folded chomp indent st p' rest
    else match st with
      | .line startsWithWord =>
        if isBreak c then
          blockText folded chomp indent (.margin [] (some ⟨breakChar c, startsWithWord⟩)) p' rest
        else (blockText folded chomp indent st p' rest).map (c :: ·)
      | .margin breaks last =>
        if isBreak c then
          blockText folded chomp indent (.margin (breaks ++ [breakChar c]) last) p' rest
        else if c = ' ' && p.column < indent then blockText folded chomp indent st p' rest
        else if p.column = indent then
          (blockText folded chomp indent (.line !isSpace c) p' rest).map
            fun text => joint folded breaks c last ++ breaks ++ c :: text
        else ⟨st.ending chomp, p, c :: rest⟩

/-- A block scalar whose mark has been read, inside a block of the given indentation. -/
def block (folded : Bool) (outer : Int) (p : Place) (s : List Char) :
    Except Problem (Scanned String) := do
  let header ← blockHeader p s
  let least := (max (outer + 1) 1).toNat
  let text := match header.value.increment with
    | some n =>
      blockText folded header.value.chomp (least + n - 1) (.margin [] none) header.place header.rest
    | none =>
      let start := leading {} header.place header.rest
      blockText folded header.value.chomp (max least start.value.widest)
        (.margin start.value.breaks none) start.place start.rest
  pure (text.map String.ofList)

end Flowscript.Yaml
