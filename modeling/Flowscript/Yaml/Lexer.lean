/-
  Flowscript.Yaml.Lexer

  From a text to its tokens.  A token that may be the key of a mapping is known to be
  one only when a colon follows on the same line; its mark is then put in front of
  it.
-/
import Flowscript.Yaml.Plain
import Flowscript.Yaml.Quoted
import Flowscript.Yaml.Token

namespace Flowscript.Yaml

/-! ## State -/

/-- A token that may be a key: how many tokens stand before it, whether it must be a key, and
where it starts. -/
structure KeyCandidate where
  before : Nat
  required : Bool
  place : Place
deriving DecidableEq, Repr, Inhabited

/-- How far a key may reach. -/
def maxKeyLength : Nat := 1024

/-- The state between two tokens.  `tokens` has the last one first; `indent` is the column of the
innermost block, and below zero outside of all blocks; `outer` are the blocks around it.  Each
open flow collection has a key candidate of its own. -/
structure Lexer where
  rest : List Char
  place : Place := {}
  tokens : List Token := []
  count : Nat := 0
  indent : Int := -1
  outer : List Int := []
  keyAllowed : Bool := true
  candidate : Option KeyCandidate := none
  outerCandidates : List (Option KeyCandidate) := []
deriving Repr, Inhabited

namespace Lexer

/-- The state is inside a flow collection. -/
def inFlow (l : Lexer) : Bool := !l.outerCandidates.isEmpty

def column (l : Lexer) : Int := l.place.column

/-- Adds a token. -/
def push (l : Lexer) (t : Token) : Lexer :=
  { l with tokens := t :: l.tokens, count := l.count + 1 }

/-- Puts a token behind the first `n` tokens. -/
def insertAfter (l : Lexer) (n : Nat) (t : Token) : Lexer :=
  let last := l.count - n
  { l with tokens := l.tokens.take last ++ t :: l.tokens.drop last, count := l.count + 1 }

/-- Goes on after characters none of which ends the line. -/
def skip (l : Lexer) (n : Nat) : Lexer :=
  { l with rest := l.rest.drop n, place := l.place.along (l.rest.take n) }

/-- Adds a token that has been read and goes on after it. -/
def accept {α : Type} (l : Lexer) (token : α → Token) (s : Scanned α) : Lexer :=
  { l with rest := s.rest, place := s.place }.push (token s.value)

/-! ## Indentation -/

/-- How many blocks end at a column, and the blocks that stay open. -/
def closed (column indent : Int) : List Int → Nat × Int × List Int
  | [] => (0, indent, [])
  | o :: outer =>
    if column < indent then
      let (n, r) := closed column o outer
      (n + 1, r)
    else (0, indent, o :: outer)

/-- Closes the blocks that are indented further than a column. -/
def unwind (l : Lexer) (column : Int) : Lexer :=
  if l.inFlow then l
  else
    let (n, indent, outer) := closed column l.indent l.outer
    { l with
      indent
      outer
      tokens := List.replicate n .blockEnd ++ l.tokens
      count := l.count + n }

/-- Opens a block at a column, unless one is open there. -/
def indentTo (l : Lexer) (column : Int) : Option Lexer :=
  if l.indent < column then some { l with indent := column, outer := l.indent :: l.outer } else none

/-- Opens a block of the given kind at the current column, outside of flow collections. -/
def openBlock (l : Lexer) (start : Token) : Lexer :=
  if l.inFlow then l
  else match l.indentTo l.column with
    | some l => l.push start
    | none => l

/-! ## Keys -/

/-- Gives up the candidate of the current level. -/
def dropCandidate (l : Lexer) : Except Problem Lexer :=
  match l.candidate with
  | some k => if k.required then .error .keyWithoutColon else .ok { l with candidate := none }
  | none => .ok l

/-- Makes the next token a candidate, if a key may stand here. -/
def saveCandidate (l : Lexer) : Except Problem Lexer :=
  if l.keyAllowed then do
    let l ← l.dropCandidate
    pure { l with
      candidate := some
        { before := l.count, required := !l.inFlow && l.indent = l.column, place := l.place } }
  else .ok l

/-- A candidate that can still become a key at a place. -/
def fresh (p : Place) : Option KeyCandidate → Except Problem (Option KeyCandidate)
  | none => .ok none
  | some k =>
    if k.place.line = p.line && p.index - k.place.index ≤ maxKeyLength then .ok (some k)
    else if k.required then .error .keyWithoutColon
    else .ok none

/-- Gives up all candidates that are on an earlier line or too far away. -/
def dropStale (l : Lexer) : Except Problem Lexer := do
  let candidate ← fresh l.place l.candidate
  let outerCandidates ← l.outerCandidates.mapM (fresh l.place)
  pure { l with candidate, outerCandidates }

/-! ## Gaps -/

/-- Skips spaces, comments and line breaks; tells whether there was a line break. -/
def skipGaps (inComment broke : Bool) (p : Place) : List Char → Scanned Bool
  | [] => ⟨broke, p, []⟩
  | c :: rest =>
    let p' := p.next c rest
    if isBreak c then skipGaps false true p' rest
    else if inComment then skipGaps true broke p' rest
    else if c = ' ' then skipGaps false broke p' rest
    else if c = '#' then skipGaps true broke p' rest
    else ⟨broke, p, c :: rest⟩

/-- Goes on to the next token; a key may stand on a new line. -/
def toNextToken (l : Lexer) : Lexer :=
  let s := skipGaps false false l.place l.rest
  { l with
    rest := s.rest
    place := s.place
    keyAllowed := l.keyAllowed || (s.value && !l.inFlow) }

/-! ## Tokens -/

/-- Ends all blocks before a directive or a mark between documents. -/
def endBlocks (l : Lexer) : Except Problem Lexer := do
  let l ← (l.unwind (-1)).dropCandidate
  pure { l with keyAllowed := false }

/-- The start of a flow collection. -/
def openFlow (l : Lexer) (t : Token) : Except Problem Lexer := do
  let l ← l.saveCandidate
  pure
    ({ l with
      outerCandidates := l.candidate :: l.outerCandidates
      candidate := none
      keyAllowed := true }.skip 1 |>.push t)

/-- The end of a flow collection. -/
def closeFlow (l : Lexer) (t : Token) : Except Problem Lexer :=
  match l.outerCandidates with
  | [] => .error .unexpected
  | candidate :: outerCandidates =>
    .ok ({ l with candidate, outerCandidates, keyAllowed := false }.skip 1 |>.push t)

/-- A comma between the entries of a flow collection. -/
def comma (l : Lexer) : Except Problem Lexer := do
  let l ← { l with keyAllowed := true }.dropCandidate
  pure ((l.skip 1).push .comma)

/-- The mark of an entry of a block sequence. -/
def entry (l : Lexer) : Except Problem Lexer :=
  if !l.inFlow && !l.keyAllowed then .error (.misplaced "a sequence entry")
  else do
    let l ← { l.openBlock .blockSequence with keyAllowed := true }.dropCandidate
    pure ((l.skip 1).push .entry)

/-- The mark of a key. -/
def explicitKey (l : Lexer) : Except Problem Lexer :=
  if !l.inFlow && !l.keyAllowed then .error (.misplaced "a mapping key")
  else do
    let l ← { l.openBlock .blockMapping with keyAllowed := !l.inFlow }.dropCandidate
    pure ((l.skip 1).push .key)

/-- The mark of a value.  A candidate before it becomes a key, which opens a mapping if none is
open at its column. -/
def value (l : Lexer) : Except Problem Lexer :=
  match l.candidate with
  | some k =>
    let l := { l with candidate := none, keyAllowed := false }.insertAfter k.before .key
    let l := if l.inFlow then l
      else match l.indentTo k.place.column with
        | some l => l.insertAfter k.before .blockMapping
        | none => l
    .ok ((l.skip 1).push .value)
  | none =>
    if !l.inFlow && !l.keyAllowed then .error (.misplaced "a mapping value")
    else do
      let l ← { l.openBlock .blockMapping with keyAllowed := !l.inFlow }.dropCandidate
      pure ((l.skip 1).push .value)

/-- A token that may be a key. -/
def candidateToken {α : Type} (l : Lexer) (token : α → Token)
    (read : Place → List Char → Except Problem (Scanned α)) (skipped : Nat) :
    Except Problem Lexer := do
  let l ← l.saveCandidate
  let l := { l with keyAllowed := false }.skip skipped
  let s ← read l.place l.rest
  pure (l.accept token s)

/-- A block scalar. -/
def blockScalar (l : Lexer) (folded : Bool) : Except Problem Lexer := do
  let l ← { l with keyAllowed := true }.dropCandidate
  let l := l.skip 1
  let s ← block folded l.indent l.place l.rest
  pure (l.accept (Token.scalar false) s)

/-- A plain scalar. -/
def plainScalar (l : Lexer) : Except Problem Lexer := do
  let l ← l.saveCandidate
  let s := plain l.inFlow (l.indent + 1) .word l.place l.rest
  let l := { l with keyAllowed := s.value.2 }
  pure (l.accept (fun v => Token.scalar true (String.ofList v.1)) s)

/-- A character no plain scalar starts with. -/
def isIndicator (c : Char) : Bool :=
  isSpace c || isBreak c ||
    c ∈ ['-', '?', ':', ',', '[', ']', '{', '}', '#', '&', '*', '!', '|', '>', '\'', '"', '%', '@', '`']

/-- A plain scalar starts here. -/
def startsPlain (l : Lexer) (c : Char) (rest : List Char) : Bool :=
  !isIndicator c ||
    (!gapFollows rest && (c = '-' || (!l.inFlow && (c = '?' || c = ':'))))

/-- The next token, which starts with `c`. -/
def next (l : Lexer) (c : Char) (rest : List Char) : Except Problem Lexer :=
  if c = '%' && l.place.column = 0 then do
    let l := (← l.endBlocks).skip 1
    let s ← directive l.place l.rest
    pure (l.accept id s)
  else if l.place.column = 0 && atSeparator (c :: rest) then do
    let l ← l.endBlocks
    pure ((l.skip 3).push (if c = '-' then .documentStart else .documentEnd))
  else match c with
    | '[' => l.openFlow .flowSequence
    | '{' => l.openFlow .flowMapping
    | ']' => l.closeFlow .flowSequenceEnd
    | '}' => l.closeFlow .flowMappingEnd
    | ',' => l.comma
    | '*' => l.candidateToken Token.reference anchorName 1
    | '&' => l.candidateToken Token.anchor anchorName 1
    | '!' => l.candidateToken Token.tag tag 0
    | '\'' => l.candidateToken (Token.scalar false) (quoted false) 1
    | '"' => l.candidateToken (Token.scalar false) (quoted true) 1
    | c =>
      if c = '-' && gapFollows rest then l.entry
      else if c = '?' && (l.inFlow || gapFollows rest) then l.explicitKey
      else if c = ':' && (l.inFlow || gapFollows rest) then l.value
      else if c = '|' && !l.inFlow then l.blockScalar false
      else if c = '>' && !l.inFlow then l.blockScalar true
      else if l.startsPlain c rest then l.plainScalar
      else .error (.cannotStart c)

/-- All tokens.  Every token is at least one character long, so that as many steps as there are
characters, and one for the end, are enough. -/
def run : Nat → Lexer → Except Problem (List Token)
  | 0, l => .ok l.tokens.reverse
  | n + 1, l => do
    let l ← l.toNextToken.dropStale
    let l := l.unwind l.column
    match l.rest with
    | [] =>
      let l ← (l.unwind (-1)).dropCandidate
      pure l.tokens.reverse
    | c :: rest =>
      let l ← l.next c rest
      run n l

end Lexer

/-- The tokens of a text. -/
def tokens (s : List Char) : Except Problem (List Token) :=
  match s.find? fun c => !isAllowed c with
  | some c => .error (.notAllowed c)
  | none =>
    let start : Lexer := match s with
      | c :: rest =>
        if c = byteOrderMark then { rest, place := { index := 1 } } else { rest := s }
      | [] => { rest := [] }
    start.run (s.length + 1)

end Flowscript.Yaml
