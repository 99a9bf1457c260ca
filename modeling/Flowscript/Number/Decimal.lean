/-
  Flowscript.Number.Decimal

  Reading of decimal numbers.  The general reader `Double.read?` trims white space,
  takes the digits of every script, allows single underscores between digits, and
  knows the words for infinity and for no number in any case.
-/
import Flowscript.Number.Double
import Flowscript.Text.Blank
import Flowscript.Text.Digit

namespace Flowscript

/-- The value of a run of ASCII digits. -/
def digitsValue (ds : List Char) : Nat :=
  ds.foldl (fun n d => 10 * n + (d.toNat - 48)) 0

@[simp] theorem digitsValue_nil : digitsValue [] = 0 := rfl

/-- A decimal without sign: `digits · 10^exponent`. -/
structure Decimal where
  digits : Nat
  exponent : Int
deriving DecidableEq, Repr

namespace Decimal

/-- The most digits of an integer in decimal text; longer integers are neither read nor written. -/
def maxIntegerDigits : Nat := 4300

/-- What is said of an integer that is too long to be written. -/
def tooLong : String :=
  "Exceeds the limit (" ++ Text.ofNat maxIntegerDigits ++ " digits) for integer string conversion; " ++
    "use sys.set_int_max_str_digits() to increase the limit"

/-- Reads an exponent, with or without sign, that reaches to the end of the text. -/
def readExponent? (s : List Char) : Option Int :=
  let (negative, ds) := match s with
    | '-' :: r => (true, r)
    | '+' :: r => (false, r)
    | r => (false, r)
  if ds.isEmpty || !ds.all Char.isDigit then none
  else some (if negative then -(digitsValue ds : Int) else digitsValue ds)

/-- Reads digits, at most one point, and an exponent, up to the end of the text. -/
def read? (s : List Char) : Option Decimal :=
  let (whole, rest) := s.span Char.isDigit
  let (places, rest) := match rest with
    | '.' :: r => r.span Char.isDigit
    | r => ([], r)
  if whole.isEmpty && places.isEmpty then none
  else
    let exponent? := match rest with
      | [] => some 0
      | e :: r => if e = 'e' || e = 'E' then readExponent? r else none
    exponent?.map fun e =>
      { digits := digitsValue (whole ++ places), exponent := e - places.length }

end Decimal

namespace Double

/-- Takes out single underscores between two digits; any other underscore is refused. -/
def joinDigits? (afterDigit : Bool) : List Char → Option (List Char)
  | [] => some []
  | '_' :: d :: rest =>
    if afterDigit && d.isDigit then (joinDigits? true rest).map (d :: ·) else none
  | c :: rest => if c = '_' then none else (joinDigits? c.isDigit rest).map (c :: ·)

/-- White space around a number: the ASCII separators U+001C to U+001F are not part of it. -/
def isNumberBlank (c : Char) : Bool :=
  Text.isBlank c && !(0x1C ≤ c.toNat && c.toNat ≤ 0x1F)

/-- A digit of any script as an ASCII digit. -/
def asciiDigit (c : Char) : Char :=
  match Text.digitValue? c with
  | some v => Char.ofNat (48 + v)
  | none => c

/-- Reads a number without its sign. -/
def readMagnitude? (negative : Bool) (s : List Char) : Option Double :=
  let small := s.map Char.toLower
  if small = ['n', 'a', 'n'] then some .nan
  else if small = ['i', 'n', 'f'] || small = "infinity".toList then some (.infinite negative)
  else (Decimal.read? s).map fun d => ofDecimal negative d.digits d.exponent

/-- Reads a number from the whole text. -/
def read? (s : List Char) : Option Double :=
  let core := Text.dropEndWhile isNumberBlank (s.dropWhile isNumberBlank)
  match joinDigits? false (core.map asciiDigit) with
  | some ('-' :: r) => readMagnitude? true r
  | some ('+' :: r) => readMagnitude? false r
  | some r => readMagnitude? false r
  | none => none

end Double

end Flowscript
