/-
  Flowscript.Text.Blank

  White space and line breaks of every script, with trimming, splitting into words
  and splitting into lines.
-/
import Flowscript.Text.Basic

namespace Flowscript.Text

/-! ## Character classes -/

/-- White space: the ASCII blanks and separators U+001C to U+001F, the next-line
control, and every space or line separator. -/
def isBlank (c : Char) : Bool :=
  let n := c.toNat
  (0x09 ≤ n && n ≤ 0x0D) || (0x1C ≤ n && n ≤ 0x20) || n == 0x85 || n == 0xA0 || n == 0x1680 ||
    (0x2000 ≤ n && n ≤ 0x200A) || n == 0x2028 || n == 0x2029 || n == 0x202F || n == 0x205F ||
    n == 0x3000

/-- Characters that end a line. -/
def isLineBreak (c : Char) : Bool :=
  let n := c.toNat
  (0x0A ≤ n && n ≤ 0x0D) || (0x1C ≤ n && n ≤ 0x1E) || n == 0x85 || n == 0x2028 || n == 0x2029

/-- Every character of the text is white space. -/
def isBlankText (s : List Char) : Bool := s.all isBlank

/-! ## Trimming -/

/-- Without the characters at the end that satisfy `p`. -/
def dropEndWhile (p : Char → Bool) (s : List Char) : List Char :=
  (s.reverse.dropWhile p).reverse

@[simp] theorem dropEndWhile_nil (p : Char → Bool) : dropEndWhile p [] = [] := rfl

/-- Without white space at the start. -/
def trimStart (s : List Char) : List Char := s.dropWhile isBlank

/-- Without white space at the end. -/
def trimEnd (s : List Char) : List Char := dropEndWhile isBlank s

/-- Without white space at both ends. -/
def trim (s : List Char) : List Char := trimEnd (trimStart s)

@[simp] theorem trimStart_nil : trimStart [] = [] := rfl

@[simp] theorem trimEnd_nil : trimEnd [] = [] := rfl

@[simp] theorem trim_nil : trim [] = [] := rfl

/-! ## Words and lines -/

/-- The maximal runs of characters that are not white space. -/
def words (s : List Char) : List (List Char) :=
  match s with
  | [] => []
  | c :: rest =>
    if isBlank c then words rest
    else match rest with
      | [] => [[c]]
      | d :: _ =>
        if isBlank d then [c] :: words rest
        else match words rest with
          | [] => [[c]]
          | w :: ws => (c :: w) :: ws

@[simp] theorem words_nil : words [] = [] := rfl

/-- The words of a text with one space between neighbours. -/
def squeeze (s : List Char) : List Char := joinWith [' '] (words s)

/-- The lines of a text without their ends; a carriage return and a line feed end one line
together, and an end at the very end opens no further line. -/
def lines (s : List Char) : List (List Char) :=
  match s with
  | [] => []
  | '\r' :: '\n' :: rest => [] :: lines rest
  | c :: rest =>
    if isLineBreak c then [] :: lines rest
    else match lines rest with
      | [] => [[c]]
      | l :: ls => (c :: l) :: ls

/-- Carriage returns, alone or before a line feed, become line feeds. -/
def unifyNewlines : List Char → List Char
  | [] => []
  | '\r' :: '\n' :: rest => '\n' :: unifyNewlines rest
  | c :: rest => (if c = '\r' then '\n' else c) :: unifyNewlines rest

@[simp] theorem unifyNewlines_nil : unifyNewlines [] = [] := rfl

/-- No carriage return is left. -/
theorem not_mem_unifyNewlines (s : List Char) : '\r' ∉ unifyNewlines s := by
  fun_induction unifyNewlines s with
  | case1 => simp
  | case2 rest ih => simp [ih]
  | case3 c rest _ ih =>
    by_cases h : c = '\r'
    · simp [h, ih]
    · simpa [h, ih] using fun h' => h h'.symm

end Flowscript.Text
