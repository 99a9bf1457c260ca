/-
  Flowscript.Value.Display

  The text of a value.  `Value.display` is the text a value leaves in a message or a
  name: a text stands for itself.  `Value.inspect` is the text of a value inside a
  list or a mapping: a text is quoted and escaped, a date shows how it is made.
  Integers of very many digits have no text.
-/
import Flowscript.Value.Basic
import Flowscript.Number.Decimal
import Flowscript.Number.Shortest
import Flowscript.Text.Printable

namespace Flowscript

/-! ## Quoted text -/

namespace Text

/-- A hexadecimal number, small letters, padded with zeros to `width`. -/
def hex (width n : Nat) : List Char :=
  let ds := Nat.toDigits 16 n
  List.replicate (width - ds.length) '0' ++ ds

/-- Single quotes, unless the text has a single quote and no double quote. -/
def quoteFor (hasSingle hasDouble : Bool) : Char :=
  if hasSingle && !hasDouble then '"' else '\''

/-- One character of quoted text between `q` and `q`. -/
def inspectChar (q c : Char) : List Char :=
  if c = q || c = '\\' then ['\\', c]
  else if c = '\n' then ['\\', 'n']
  else if c = '\r' then ['\\', 'r']
  else if c = '\t' then ['\\', 't']
  else if isPrintable c then [c]
  else if c.toNat < 0x100 then '\\' :: 'x' :: hex 2 c.toNat
  else if c.toNat < 0x10000 then '\\' :: 'u' :: hex 4 c.toNat
  else '\\' :: 'U' :: hex 8 c.toNat

/-- A text in quotes, with escapes for what cannot stand for itself. -/
def inspect (s : List Char) : List Char :=
  let q := quoteFor (s.contains '\'') (s.contains '"')
  q :: s.flatMap (inspectChar q) ++ [q]

/-- One byte of a quoted byte string. -/
def inspectByte (q : Char) (b : UInt8) : List Char :=
  let c := Char.ofNat b.toNat
  if c = q || c = '\\' then ['\\', c]
  else if c = '\n' then ['\\', 'n']
  else if c = '\r' then ['\\', 'r']
  else if c = '\t' then ['\\', 't']
  else if 0x20 ≤ b.toNat && b.toNat < 0x7F then [c]
  else '\\' :: 'x' :: hex 2 b.toNat

/-- A byte string in quotes, marked with a `b`. -/
def inspectBytes (bs : List UInt8) : List Char :=
  let q := quoteFor (bs.contains 39) (bs.contains 34)
  'b' :: q :: bs.flatMap (inspectByte q) ++ [q]

/-- A number with leading zeros. -/
def padded (width n : Nat) : List Char :=
  let ds := natDigits n
  List.replicate (width - ds.length) '0' ++ ds

end Text

/-! ## Dates and times -/

namespace Date

/-- Year, month and day with hyphens. -/
def display (d : Date) : List Char :=
  Text.padded 4 d.year ++ '-' :: Text.padded 2 d.month ++ '-' :: Text.padded 2 d.day

/-- The parts of a date separated by commas. -/
def parts (d : Date) : List (List Char) :=
  [Text.natDigits d.year, Text.natDigits d.month, Text.natDigits d.day]

def inspect (d : Date) : List Char :=
  "datetime.date(".toList ++ Text.joinWith [',', ' '] d.parts ++ [')']

end Date

namespace DateTime

/-- The zone as hours and minutes with a sign. -/
def displayOffset (m : Int) : List Char :=
  (if m < 0 then '-' else '+') :: Text.padded 2 (m.natAbs / 60) ++ ':' :: Text.padded 2 (m.natAbs % 60)

/-- Date and time of day with a space between; microseconds and zone only if there are any. -/
def display (t : DateTime) : List Char :=
  t.date.display ++ ' ' :: Text.padded 2 t.hour ++ ':' :: Text.padded 2 t.minute ++
    ':' :: Text.padded 2 t.second ++
    (if t.microsecond = 0 then [] else '.' :: Text.padded 6 t.microsecond) ++
    (match t.offset with
      | none => []
      | some m => displayOffset m)

/-- How a zone is made from days and seconds. -/
def inspectOffset (m : Int) : List Char :=
  let seconds : Int := m * 60
  if m = 0 then "datetime.timezone.utc".toList
  else if m < 0 then
    "datetime.timezone(datetime.timedelta(days=-1, seconds=".toList ++
      Text.intDigits (86400 + seconds) ++ "))".toList
  else
    "datetime.timezone(datetime.timedelta(seconds=".toList ++ Text.intDigits seconds ++ "))".toList

def inspect (t : DateTime) : List Char :=
  let clock :=
    if t.microsecond ≠ 0 then [t.hour, t.minute, t.second, t.microsecond]
    else if t.second ≠ 0 then [t.hour, t.minute, t.second]
    else [t.hour, t.minute]
  let zone := match t.offset with
    | none => []
    | some m => ["tzinfo=".toList ++ inspectOffset m]
  "datetime.datetime(".toList ++
    Text.joinWith [',', ' '] (t.date.parts ++ clock.map Text.natDigits ++ zone) ++ [')']

end DateTime

/-! ## Values -/

/-- The name of a scalar's kind in messages. -/
def Scalar.kindName : Scalar → String
  | .null => "NoneType"
  | .bool _ => "bool"
  | .int _ => "int"
  | .float _ => "float"
  | .str _ => "str"
  | .date _ => "date"
  | .time _ => "datetime"
  | .bytes _ => "bytes"

/-- The name of a value's kind in messages. -/
def Value.kindName : Value → String
  | .scalar s => s.kindName
  | .list _ => "list"
  | .map _ => "dict"
  | .set _ => "set"
  | .pair .. => "tuple"
  | .knot _ body => body.kindName
  | .again _ => "list"

namespace Scalar

/-- The text of a scalar inside a list or a mapping. -/
def inspect : Scalar → List Char
  | .null => "None".toList
  | .bool true => "True".toList
  | .bool false => "False".toList
  | .int i => Text.intDigits i
  | .float x => x.chars
  | .str s => Text.inspect s.toList
  | .date d => d.inspect
  | .time t => t.inspect
  | .bytes b => Text.inspectBytes b

/-- The text of a scalar by itself. -/
def displayChars : Scalar → List Char
  | .str s => s.toList
  | .date d => d.display
  | .time t => t.display
  | s => s.inspect

/-- The text of a scalar by itself. -/
def display : Scalar → String
  | .str s => s
  | s => String.ofList s.displayChars

@[simp] theorem display_str (s : String) : display (.str s) = s := rfl

/-- An integer of so many digits that it has no text. -/
def isLongInteger : Scalar → Bool
  | .int i => Decimal.maxIntegerDigits < (Text.natDigits i.natAbs).length
  | _ => false

end Scalar

namespace Value

/-- What is written where a list or a mapping occurs inside itself. -/
def ellipsis : Value → List Char
  | .map _ => "\x7b...\x7d".toList
  | _ => "[...]".toList

mutual

/-- The text of a value inside the knots `outer`, each with what is written where it occurs
again. -/
def inspectWithin (outer : List (Nat × List Char)) : Value → List Char
  | .scalar s => s.inspect
  | .list xs => '[' :: Text.joinWith [',', ' '] (inspectItems outer xs) ++ [']']
  | .map es => '{' :: Text.joinWith [',', ' '] (inspectEntries outer es) ++ ['}']
  | .set [] => "set()".toList
  | .set ms => '{' :: Text.joinWith [',', ' '] (ms.map Scalar.inspect) ++ ['}']
  | .pair a b => '(' :: inspectWithin outer a ++ ',' :: ' ' :: inspectWithin outer b ++ [')']
  | .knot name body => match outer.lookup name with
    | some dots => dots
    | none => inspectWithin ((name, ellipsis body) :: outer) body
  | .again name => (outer.lookup name).getD []

/-- The texts of the items of a list. -/
def inspectItems (outer : List (Nat × List Char)) : List Value → List (List Char)
  | [] => []
  | x :: xs => inspectWithin outer x :: inspectItems outer xs

/-- The texts of the entries of a mapping. -/
def inspectEntries (outer : List (Nat × List Char)) : List (Scalar × Value) → List (List Char)
  | [] => []
  | (k, v) :: es => (k.inspect ++ ':' :: ' ' :: inspectWithin outer v) :: inspectEntries outer es

end

/-- The text of a value inside a list or a mapping. -/
def inspect (v : Value) : List Char := inspectWithin [] v

/-- The text of a value by itself. -/
def display : Value → String
  | .scalar s => s.display
  | v => String.ofList v.inspect

@[simp] theorem display_str (s : String) : display (.str s) = s := rfl

mutual

/-- The value is or has an integer of so many digits that it has no text. -/
def hasLongInteger : Value → Bool
  | .scalar s => s.isLongInteger
  | .list xs => anyLongInteger xs
  | .map es => anyLongEntry es
  | .set ms => ms.any Scalar.isLongInteger
  | .pair a b => hasLongInteger a || hasLongInteger b
  | .knot _ body => hasLongInteger body
  | .again _ => false

/-- One of the values has an integer without a text. -/
def anyLongInteger : List Value → Bool
  | [] => false
  | x :: xs => hasLongInteger x || anyLongInteger xs

/-- One of the entries has an integer without a text. -/
def anyLongEntry : List (Scalar × Value) → Bool
  | [] => false
  | (k, v) :: es => k.isLongInteger || hasLongInteger v || anyLongEntry es

end

@[simp] theorem hasLongInteger_str (s : String) : hasLongInteger (.str s) = false := rfl

@[simp] theorem hasLongInteger_bool (b : Bool) : hasLongInteger (.bool b) = false := rfl

/-- The text of a value by itself, unless an integer is too long for one. -/
def display? (v : Value) : Option String := if v.hasLongInteger then none else some v.display

@[simp] theorem display?_str (s : String) : display? (.str s) = some s := rfl

end Value

end Flowscript
