/-
  Flowscript.Json.Reader

  Reading of JSON texts.  Integers stay apart from numbers with a fraction or an
  exponent, objects keep the order of their members, a repeated member keeps its
  first place and its last value, and the words for infinity and for no number are
  accepted as numbers.  Integers of too many digits and collections inside too many
  others are refused.
-/
import Flowscript.Value.Basic
import Flowscript.Number.Decimal

namespace Flowscript.Json

/-- Why a text is no JSON value. -/
inductive Problem where
  | malformed
  | longInteger
  | tooDeep
deriving DecidableEq, Repr, Inhabited

/-- How many collections can be inside each other. -/
def maxDepth : Nat := 990

/-! ## Blanks and strings -/

/-- The four blanks of JSON. -/
def isSpace (c : Char) : Bool := c = ' ' || c = '\t' || c = '\n' || c = '\r'

/-- Without blanks at the start. -/
def skipSpace (s : List Char) : List Char := s.dropWhile isSpace

/-- The value of a hexadecimal digit. -/
def hexValue? (c : Char) : Option Nat :=
  if c.isDigit then some (c.toNat - 48)
  else if 'a' ≤ c && c ≤ 'f' then some (c.toNat - 87)
  else if 'A' ≤ c && c ≤ 'F' then some (c.toNat - 55)
  else none

/-- The value of four hexadecimal digits. -/
def unit? (a b c d : Char) : Option Nat := do
  let a ← hexValue? a
  let b ← hexValue? b
  let c ← hexValue? c
  let d ← hexValue? d
  pure (((a * 16 + b) * 16 + c) * 16 + d)

/-- The character an escape of one letter stands for. -/
def escaped? : Char → Option Char
  | '"' => some '"'
  | '\\' => some '\\'
  | '/' => some '/'
  | 'b' => some (Char.ofNat 8)
  | 'f' => some (Char.ofNat 12)
  | 'n' => some '\n'
  | 'r' => some '\r'
  | 't' => some '\t'
  | _ => none

/-- The code units up to the closing quote, and the text after it. -/
def units : List Char → Option (List Nat × List Char)
  | [] => none
  | '"' :: rest => some ([], rest)
  | '\\' :: 'u' :: a :: b :: c :: d :: rest => do
    let u ← unit? a b c d
    let (us, rest) ← units rest
    pure (u :: us, rest)
  | '\\' :: c :: rest => do
    let e ← escaped? c
    let (us, rest) ← units rest
    pure (e.toNat :: us, rest)
  | c :: rest =>
    if c = '\\' || c.toNat < 0x20 then none
    else do
      let (us, rest) ← units rest
      pure (c.toNat :: us, rest)

/-- A high surrogate and the low surrogate after it are one character. -/
def joinSurrogates : List Nat → List Char
  | [] => []
  | [u] => [Char.ofNat u]
  | u :: v :: rest =>
    if 0xD800 ≤ u && u < 0xDC00 && 0xDC00 ≤ v && v < 0xE000 then
      Char.ofNat (0x10000 + (u - 0xD800) * 0x400 + (v - 0xDC00)) :: joinSurrogates rest
    else Char.ofNat u :: joinSurrogates (v :: rest)

/-- A string whose opening quote has been read. -/
def string (s : List Char) : Option (String × List Char) :=
  (units s).map fun (us, rest) => (String.ofList (joinSurrogates us), rest)

/-! ## Numbers -/

/-- The fraction of a number: a point and at least one digit. -/
def fraction (s : List Char) : List Char × List Char :=
  match s with
  | '.' :: r => match r.span Char.isDigit with
    | ([], _) => ([], s)
    | (ds, rest) => (ds, rest)
  | _ => ([], s)

/-- The exponent of a number, with the text after it. -/
def exponent (s : List Char) : Option Int × List Char :=
  match s with
  | e :: r =>
    if e = 'e' || e = 'E' then
      let (sign, r') := match r with
        | '-' :: t => (['-'], t)
        | '+' :: t => ([], t)
        | t => ([], t)
      match r'.span Char.isDigit with
      | ([], _) => (none, s)
      | (ds, rest) => (Decimal.readExponent? (sign ++ ds), rest)
    else (none, s)
  | [] => (none, s)

/-- A number without its sign. -/
def magnitude (negative : Bool) (s : List Char) : Except Problem (Value × List Char) :=
  let whole := match s with
    | '0' :: r => (['0'], r)
    | r => r.span Char.isDigit
  if whole.1.isEmpty then .error .malformed
  else
    let (places, rest) := fraction whole.2
    let (e?, rest) := exponent rest
    if places.isEmpty && e?.isNone then
      if Decimal.maxIntegerDigits < whole.1.length then .error .longInteger
      else
        let n : Int := digitsValue whole.1
        .ok (.int (if negative then -n else n), rest)
    else
      let digits := digitsValue (whole.1 ++ places)
      .ok (.float (Double.ofDecimal negative digits (e?.getD 0 - places.length)), rest)

/-! ## Values -/

mutual

/-- Reads one value, in which at most `depth` collections are inside each other; every call uses up
one unit of fuel. -/
def value : Nat → Nat → List Char → Except Problem (Value × List Char)
  | 0, _, _ => .error .malformed
  | fuel + 1, depth, s =>
    match skipSpace s with
    | [] => .error .malformed
    | '{' :: r => match depth with
      | 0 => .error .tooDeep
      | depth + 1 => match skipSpace r with
        | '}' :: rest => .ok (.map [], rest)
        | r => members fuel depth [] r
    | '[' :: r => match depth with
      | 0 => .error .tooDeep
      | depth + 1 => match skipSpace r with
        | ']' :: rest => .ok (.list [], rest)
        | r => items fuel depth [] r
    | '"' :: r => match string r with
      | some (t, rest) => .ok (.str t, rest)
      | none => .error .malformed
    | 'n' :: 'u' :: 'l' :: 'l' :: rest => .ok (.null, rest)
    | 't' :: 'r' :: 'u' :: 'e' :: rest => .ok (.bool true, rest)
    | 'f' :: 'a' :: 'l' :: 's' :: 'e' :: rest => .ok (.bool false, rest)
    | 'N' :: 'a' :: 'N' :: rest => .ok (.float .nan, rest)
    | 'I' :: 'n' :: 'f' :: 'i' :: 'n' :: 'i' :: 't' :: 'y' :: rest =>
      .ok (.float (.infinite false), rest)
    | '-' :: 'I' :: 'n' :: 'f' :: 'i' :: 'n' :: 'i' :: 't' :: 'y' :: rest =>
      .ok (.float (.infinite true), rest)
    | '-' :: r => magnitude true r
    | r => magnitude false r

/-- Reads the items of a list, of which `done` have been read, up to the closing bracket. -/
def items : Nat → Nat → List Value → List Char → Except Problem (Value × List Char)
  | 0, _, _, _ => .error .malformed
  | fuel + 1, depth, done, s =>
    match value fuel depth s with
    | .error e => .error e
    | .ok (v, r) => match skipSpace r with
      | ',' :: rest => items fuel depth (v :: done) rest
      | ']' :: rest => .ok (.list (v :: done).reverse, rest)
      | _ => .error .malformed

/-- Reads the members of an object, of which `done` have been read, up to the closing brace. -/
def members : Nat → Nat → Entries → List Char → Except Problem (Value × List Char)
  | 0, _, _, _ => .error .malformed
  | fuel + 1, depth, done, s =>
    match skipSpace s with
    | '"' :: r => match string r with
      | none => .error .malformed
      | some (k, r) => match skipSpace r with
        | ':' :: r => match value fuel depth r with
          | .error e => .error e
          | .ok (v, r) =>
            let done := done.insert (.str k) v
            match skipSpace r with
            | ',' :: rest => members fuel depth done rest
            | '}' :: rest => .ok (.map done, rest)
            | _ => .error .malformed
        | _ => .error .malformed
    | _ => .error .malformed

end

/-- Reads a whole text; nothing but blanks may follow the value. -/
def read (s : List Char) : Except Problem Value :=
  match value (2 * s.length + 2) maxDepth s with
  | .ok (v, rest) => if (skipSpace rest).isEmpty then .ok v else .error .malformed
  | .error e => .error e

end Flowscript.Json
