/-
  Flowscript.Yaml.Place

  Places in a text and the characters that end lines and words.  A carriage return
  with a line feed after it is one line break.
-/

namespace Flowscript.Yaml

/-! ## Characters -/

/-- A character that ends a line. -/
def isBreak (c : Char) : Bool :=
  c = '\n' || c = '\r' || c.toNat = 0x85 || c.toNat = 0x2028 || c.toNat = 0x2029

/-- A space or a tab. -/
def isSpace (c : Char) : Bool := c = ' ' || c = '\t'

/-- The text ends here, or a space, a tab or a line break follows. -/
def gapFollows : List Char → Bool
  | [] => true
  | c :: _ => isSpace c || isBreak c

/-- The text ends here, or a space or a line break follows. -/
def wordEnds : List Char → Bool
  | [] => true
  | c :: _ => c = ' ' || isBreak c

/-- The text or the line ends here. -/
def lineEnds : List Char → Bool
  | [] => true
  | c :: _ => isBreak c

/-- What a line break leaves in a text: a line feed, unless it is one of the separators of lines
and paragraphs. -/
def breakChar (c : Char) : Char :=
  if c.toNat = 0x2028 || c.toNat = 0x2029 then c else '\n'

/-- The character is the first half of a line break of two characters. -/
def isHalfBreak (c : Char) (rest : List Char) : Bool := c = '\r' && rest.head? = some '\n'

/-- The text goes on with a line that divides documents. -/
def atSeparator : List Char → Bool
  | a :: b :: c :: rest =>
    (a = '-' && b = '-' && c = '-' || a = '.' && b = '.' && c = '.') && gapFollows rest
  | _ => false

/-- The mark that may stand at the start of a text. -/
def byteOrderMark : Char := Char.ofNat 0xFEFF

/-- A character that may stand in a text. -/
def isAllowed (c : Char) : Bool :=
  let n := c.toNat
  n = 0x09 || n = 0x0A || n = 0x0D || (0x20 ≤ n && n ≤ 0x7E) || n = 0x85 ||
    (0xA0 ≤ n && n ≤ 0xD7FF) || (0xE000 ≤ n && n ≤ 0xFFFD) || 0x10000 ≤ n

/-! ## Places -/

/-- A place in a text. -/
structure Place where
  line : Nat := 0
  column : Nat := 0
  index : Nat := 0
deriving DecidableEq, Repr, Inhabited

namespace Place

/-- The place after a character that `rest` follows. -/
def next (p : Place) (c : Char) (rest : List Char) : Place :=
  if isBreak c && !isHalfBreak c rest then { line := p.line + 1, column := 0, index := p.index + 1 }
  else if c = byteOrderMark then { p with index := p.index + 1 }
  else { p with column := p.column + 1, index := p.index + 1 }

/-- The place after characters none of which ends the line. -/
def along (p : Place) (s : List Char) : Place :=
  { p with
    column := p.column + s.countP (· ≠ byteOrderMark)
    index := p.index + s.length }

@[simp] theorem along_nil (p : Place) : p.along [] = p := rfl

end Place

/-- What was read, and where reading goes on. -/
structure Scanned (α : Type) where
  value : α
  place : Place
  rest : List Char
deriving Repr, Inhabited

/-- The result with its value changed. -/
def Scanned.map {α β : Type} (f : α → β) (s : Scanned α) : Scanned β :=
  { value := f s.value, place := s.place, rest := s.rest }

/-- One line break, if there is one. -/
def skipBreak (p : Place) : List Char → Scanned Unit
  | '\r' :: '\n' :: rest => ⟨(), { line := p.line + 1, column := 0, index := p.index + 2 }, rest⟩
  | c :: rest => if isBreak c then ⟨(), p.next c rest, rest⟩ else ⟨(), p, c :: rest⟩
  | [] => ⟨(), p, []⟩

/-- Characters up to the first that fails a test, none of which ends the line. -/
def takeAlong (test : Char → Bool) (p : Place) (s : List Char) : Scanned (List Char) :=
  let taken := s.takeWhile test
  ⟨taken, p.along taken, s.dropWhile test⟩

/-- Line breaks as they are kept in a text of folded lines: one becomes a space, of several the
first is dropped; without any the given spaces stay. -/
def foldBreaks (spaces : List Char) : List Char → List Char
  | [] => spaces
  | b :: bs => if b ≠ '\n' then b :: bs else if bs.isEmpty then [' '] else bs

end Flowscript.Yaml
