/-
  Flowscript.Proofs.LiteralReading

  How the generated language reads literals.

  Strings are read with all escapes of the language.  A line feed or a carriage return
  inside of one is an error, unless a backslash is before it, which takes it out.  Numbers
  are whole and have their mathematical value, whatever the language makes of large ones;
  properties have their names as they are spelled, whatever the language does with some of
  them.  Everything else is refused: other expressions, numbers with a fraction or an
  exponent, and objects with two properties of a name.
-/
import Mathlib.Data.List.TakeDrop
import Flowscript.Json.Reader
import Flowscript.Proofs.Identifiers

namespace Flowscript.Script

open Naming (isIdentifierPart isIdentifierStart)

variable {c : Char} {s t w rest : List Char} {fuel : Nat} {v : Value}

-- ============================================================================
-- Between tokens
-- ============================================================================

/-- A character that ends a line. -/
def isLineEnd (c : Char) : Bool :=
  c = '\n' || c = '\r' || c.toNat = 0x2028 || c.toNat = 0x2029

/-- A character that may stand between tokens. -/
def isGap (c : Char) : Bool :=
  let n := c.toNat
  isLineEnd c || n = 0x09 || n = 0x0B || n = 0x0C || n = 0x20 || n = 0xA0 || n = 0x1680 ||
    (0x2000 ≤ n && n ≤ 0x200A) || n = 0x202F || n = 0x205F || n = 0x3000 || n = 0xFEFF

/-- The text from its first token on. -/
def skipGaps (s : List Char) : List Char := s.dropWhile isGap

theorem skipGaps_of_gap (h : isGap c = true) (s : List Char) : skipGaps (c :: s) = skipGaps s := by
  rw [skipGaps, List.dropWhile_cons, if_pos h, skipGaps]

theorem skipGaps_of_token (h : isGap c = false) (s : List Char) : skipGaps (c :: s) = c :: s := by
  rw [skipGaps, List.dropWhile_cons, h, if_neg Bool.false_ne_true]

theorem isGap_of_isIdentifierPart (h : isIdentifierPart c = true) : isGap c = false := by
  obtain ⟨hlow, hhigh⟩ := Naming.toNat_of_isIdentifierPart h
  have hline : isLineEnd c = false := by
    simp only [isLineEnd, Bool.or_eq_false_iff, decide_eq_false_iff_not]
    refine ⟨⟨⟨?_, ?_⟩, by omega⟩, by omega⟩ <;> (rintro rfl; revert hlow; decide)
  simp only [isGap, hline, Bool.or_eq_false_iff, Bool.and_eq_false_iff, decide_eq_false_iff_not,
    true_and]
  omega

-- ============================================================================
-- Strings
-- ============================================================================

/-- The value of one or more hexadecimal digits. -/
def hexNumber? (ds : List Char) : Option Nat :=
  if ds.isEmpty then none
  else (ds.mapM Json.hexValue?).map (·.foldl (fun n d => 16 * n + d) 0)

/-- The character that a single one stands for after a backslash. -/
def escapedChar : Char → Char
  | 'b' => Char.ofNat 0x08
  | 't' => '\t'
  | 'n' => '\n'
  | 'v' => Char.ofNat 0x0B
  | 'f' => Char.ofNat 0x0C
  | 'r' => '\r'
  | c => c

/-- Reads an escape, whose backslash has been read: the code units it stands for, and the text after
it.  The end of a line stands for nothing, and digits other than a lone zero are refused. -/
def readEscape : List Char → Option (List Nat × List Char)
  | [] => none
  | '\r' :: '\n' :: rest => some ([], rest)
  | 'x' :: a :: b :: rest => (hexNumber? [a, b]).map fun u => ([u], rest)
  | 'u' :: '{' :: rest =>
    match Text.cutAt '}' rest with
    | (ds, some rest) => ((hexNumber? ds).filter (· ≤ 0x10FFFF)).map fun u => ([u], rest)
    | (_, none) => none
  | 'u' :: a :: b :: c :: d :: rest => (hexNumber? [a, b, c, d]).map fun u => ([u], rest)
  | c :: rest =>
    if isLineEnd c then some ([], rest)
    else if c = '0' && !rest.head?.any Char.isDigit then some ([0], rest)
    else if c = 'x' || c = 'u' || c.isDigit then none
    else some ([(escapedChar c).toNat], rest)

/-- Reads a string up to the quote that ends it: its code units, and the text after it.  Every
character or escape uses up one unit of fuel. -/
def readUnits (q : Char) : Nat → List Char → Option (List Nat × List Char)
  | 0, _ => none
  | _ + 1, [] => none
  | fuel + 1, c :: rest =>
    if c = q then some ([], rest)
    else if c = '\n' || c = '\r' then none
    else if c = '\\' then
      (readEscape rest).bind fun (us, rest) =>
        (readUnits q fuel rest).map fun (vs, rest) => (us ++ vs, rest)
    else (readUnits q fuel rest).map fun (us, rest) => (c.toNat :: us, rest)

/-- The characters of code units; two surrogates are one character, and one alone is none. -/
def decode? : List Nat → Option (List Char)
  | [] => some []
  | u :: us =>
    if u.isValidChar then (decode? us).map (Char.ofNat u :: ·)
    else match us with
      | v :: us =>
        if 0xD800 ≤ u && u < 0xDC00 && 0xDC00 ≤ v && v < 0xE000 then
          (decode? us).map (Char.ofNat (0x10000 + (u - 0xD800) * 0x400 + (v - 0xDC00)) :: ·)
        else none
      | [] => none

/-- Reads a string whose opening quote has been read, and the text after it. -/
def readString (q : Char) (s : List Char) : Option (List Char × List Char) :=
  (readUnits q s.length s).bind fun (us, rest) => (decode? us).map fun t => (t, rest)

example : readString '\'' "\\u\x7b1F600\x7d\\uD83D\\uDE00\\x41\\\n\\0\\'', 1".toList =
    some ("😀😀A\x00'".toList, ", 1".toList) := by decide +kernel

-- ============================================================================
-- Numbers, words and names
-- ============================================================================

/-- The value of decimal digits, which do not begin with a zero unless there is only one. -/
def numeral? (ds : List Char) : Option Nat :=
  if ds.isEmpty || !ds.all Char.isDigit || (ds.head? = some '0' && ds ≠ ['0']) then none
  else some (digitsValue ds)

/-- The value of a word: a truth value, no value at all, or a number. -/
def word? (w : List Char) : Option Value :=
  if w = "true".toList then some (.bool true)
  else if w = "false".toList then some (.bool false)
  else if w = "undefined".toList then some .null
  else (numeral? w).map fun n : Nat => .int n

/-- The word that a text begins with, and the text after it. -/
def cutWord (s : List Char) : List Char × List Char := s.span isIdentifierPart

/-- The text does not continue a word. -/
def EndsWord (s : List Char) : Prop := ∀ c, s.head? = some c → isIdentifierPart c = false

theorem endsWord_nil : EndsWord [] := by
  rintro c ⟨⟩

theorem endsWord_cons (h : isIdentifierPart c = false) (s : List Char) : EndsWord (c :: s) := by
  rintro d ⟨⟩
  exact h

theorem cutWord_append (hw : ∀ c ∈ w, isIdentifierPart c = true) (hrest : EndsWord rest) :
    cutWord (w ++ rest) = (w, rest) := by
  rw [cutWord, List.span_eq_takeWhile_dropWhile, List.takeWhile_append_of_pos hw,
    List.dropWhile_append_of_pos hw]
  cases rest with
  | nil => simp
  | cons c rest => simp [hrest c rfl]

/-- Reads the name of a property, which is an identifier or a string. -/
def readName : List Char → Option (List Char × List Char)
  | [] => none
  | c :: rest =>
    if c = '\'' || c = '"' then readString c rest
    else if isIdentifierStart c then some (cutWord (c :: rest))
    else none

-- ============================================================================
-- Values
-- ============================================================================

mutual

/-- Reads a value, and the text after it; every call uses up one unit of fuel. -/
def readValue : Nat → List Char → Option (Value × List Char)
  | 0, _ => none
  | fuel + 1, s => match skipGaps s with
    | [] => none
    | c :: rest =>
      if c = '[' then (readItems fuel rest).map fun (xs, rest) => (.list xs, rest)
      else if c = '{' then
        ((readProperties fuel rest).filter fun r => (r.1.map (·.1)).Nodup).map fun (es, rest) =>
          (.map es, rest)
      else if c = '\'' || c = '"' then
        (readString c rest).map fun (t, rest) => (.str (String.ofList t), rest)
      else if c = '-' then
        let (w, rest) := cutWord (skipGaps rest)
        (numeral? w).map fun n : Nat => (.int (-n), rest)
      else
        let (w, rest) := cutWord (c :: rest)
        (word? w).map fun v => (v, rest)

/-- Reads the items of a list up to the bracket that closes it; a comma may follow the last one. -/
def readItems : Nat → List Char → Option (List Value × List Char)
  | 0, _ => none
  | fuel + 1, s =>
    if (skipGaps s).head? = some ']' then some ([], (skipGaps s).tail)
    else (readValue fuel s).bind fun (v, rest) => match skipGaps rest with
      | ',' :: rest => (readItems fuel rest).map fun (vs, rest) => (v :: vs, rest)
      | ']' :: rest => some ([v], rest)
      | _ => none

/-- Reads the properties of an object up to the brace that closes it; a comma may follow the last
one. -/
def readProperties : Nat → List Char → Option (Entries × List Char)
  | 0, _ => none
  | fuel + 1, s =>
    if (skipGaps s).head? = some '}' then some ([], (skipGaps s).tail)
    else (readName (skipGaps s)).bind fun (k, rest) => match skipGaps rest with
      | ':' :: rest => (readValue fuel rest).bind fun (v, rest) => match skipGaps rest with
        | ',' :: rest => (readProperties fuel rest).map fun (es, rest) =>
          ((.str (String.ofList k), v) :: es, rest)
        | '}' :: rest => some ([(.str (String.ofList k), v)], rest)
        | _ => none
      | _ => none

end

/-- The value that a whole text is a literal of. -/
def read? (s : List Char) : Option Value :=
  (readValue (2 * s.length) s).bind fun (v, rest) =>
    if (skipGaps rest).isEmpty then some v else none

-- ============================================================================
-- Tokens of values
-- ============================================================================

/-- What stands between tokens is no matter. -/
theorem readValue_congr (h : skipGaps s = skipGaps t) (fuel : Nat) :
    readValue fuel s = readValue fuel t := by
  cases fuel with
  | zero => rfl
  | succ fuel => rw [readValue, readValue, h]

theorem readItems_congr (h : skipGaps s = skipGaps t) (fuel : Nat) :
    readItems fuel s = readItems fuel t := by
  cases fuel with
  | zero => rfl
  | succ fuel => rw [readItems, readItems, h, readValue_congr h]

theorem readProperties_congr (h : skipGaps s = skipGaps t) (fuel : Nat) :
    readProperties fuel s = readProperties fuel t := by
  cases fuel with
  | zero => rfl
  | succ fuel => rw [readProperties, readProperties, h]

/-- A value begins with no bracket that closes a list. -/
theorem head?_of_readValue {r : Value × List Char} (h : readValue fuel s = some r) :
    (skipGaps s).head? ≠ some ']' := by
  intro hhead
  cases fuel with
  | zero => cases h
  | succ fuel =>
      rw [readValue] at h
      cases hs : skipGaps s with
      | nil =>
          rw [hs] at hhead
          cases hhead
      | cons c t =>
          rw [hs] at hhead h
          cases hhead
          cases h

/-- An item is followed by the other ones, or by the end of the list. -/
theorem readItems_of_readValue (h : readValue fuel s = some (v, rest)) :
    readItems (fuel + 1) s = match skipGaps rest with
      | ',' :: rest => (readItems fuel rest).map fun (vs, rest) => (v :: vs, rest)
      | ']' :: rest => some ([v], rest)
      | _ => none := by
  rw [readItems, if_neg (head?_of_readValue h), h, Option.bind_some]

/-- A property is followed by the other ones, or by the end of the object. -/
theorem readProperties_of_readValue (hname : readName (skipGaps s) = some (w, ':' :: t))
    (h : readValue fuel t = some (v, rest)) :
    readProperties (fuel + 1) s = match skipGaps rest with
      | ',' :: rest => (readProperties fuel rest).map fun (es, rest) =>
        ((.str (String.ofList w), v) :: es, rest)
      | '}' :: rest => some ([(.str (String.ofList w), v)], rest)
      | _ => none := by
  have hhead : (skipGaps s).head? ≠ some '}' := by
    intro hhead
    cases hs : skipGaps s with
    | nil =>
        rw [hs] at hhead
        cases hhead
    | cons c t =>
        rw [hs] at hhead hname
        cases hhead
        cases hname
  have hcolon : skipGaps (':' :: t) = ':' :: t := skipGaps_of_token (by decide) t
  rw [readProperties, if_neg hhead, hname, Option.bind_some]
  simp only [hcolon, h, Option.bind_some]

/-- A word is read up to what does not continue it. -/
theorem readValue_word (hne : w ≠ []) (hw : ∀ c ∈ w, isIdentifierPart c = true)
    (hv : word? w = some v) (hrest : EndsWord rest) (fuel : Nat) :
    readValue (fuel + 1) (w ++ rest) = some (v, rest) := by
  have hcut := cutWord_append hw hrest
  obtain ⟨c, w, rfl⟩ := List.exists_cons_of_ne_nil hne
  have hc := hw c List.mem_cons_self
  have hother : ∀ d, isIdentifierPart d = false → c ≠ d := by
    rintro d hd rfl
    rw [hc] at hd
    cases hd
  rw [List.cons_append] at hcut ⊢
  rw [readValue, skipGaps_of_token (isGap_of_isIdentifierPart hc)]
  simp only [hother '[' (by decide), hother '{' (by decide), hother '\'' (by decide),
    hother '"' (by decide), hother '-' (by decide), decide_false, Bool.or_self, if_false,
    Bool.false_eq_true, hcut, hv, Option.map_some]

theorem readValue_list {xs : List Value} (h : readItems fuel s = some (xs, rest)) :
    readValue (fuel + 1) ('[' :: s) = some (.list xs, rest) := by
  have hbracket : isGap '[' = false := by decide
  rw [readValue, skipGaps_of_token hbracket]
  simp [h]

theorem readValue_map {es : Entries} (h : readProperties fuel s = some (es, rest))
    (hdistinct : (es.map (·.1)).Nodup) :
    readValue (fuel + 1) ('{' :: s) = some (.map es, rest) := by
  have hbrace : isGap '{' = false := by decide
  rw [readValue, skipGaps_of_token hbrace]
  simp [h, hdistinct]

end Flowscript.Script
