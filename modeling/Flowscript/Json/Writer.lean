/-
  Flowscript.Json.Writer

  Writing of values as JSON, on one line or laid out with two more spaces per level,
  with or without escapes for characters outside ASCII.  Dates, times, byte strings and
  sets have no JSON form, nor has an integer of very many digits, nor a value that
  contains itself.
-/
import Flowscript.Value.Display

namespace Flowscript.Json

/-! ## Strings -/

/-- An escape for one UTF-16 code unit. -/
def unitEscape (u : Nat) : List Char := '\\' :: 'u' :: Text.hex 4 u

/-- A character as one escape, or as two when it lies beyond the first plane. -/
def charEscape (c : Char) : List Char :=
  let n := c.toNat
  if n < 0x10000 then unitEscape n
  else unitEscape (0xD800 + (n - 0x10000) / 0x400) ++ unitEscape (0xDC00 + (n - 0x10000) % 0x400)

/-- One character of a string; `ascii` escapes everything outside printable ASCII. -/
def stringChar (ascii : Bool) (c : Char) : List Char :=
  if c = '"' then ['\\', '"']
  else if c = '\\' then ['\\', '\\']
  else if c = '\n' then ['\\', 'n']
  else if c = '\r' then ['\\', 'r']
  else if c = '\t' then ['\\', 't']
  else if c.toNat = 8 then ['\\', 'b']
  else if c.toNat = 12 then ['\\', 'f']
  else if c.toNat < 0x20 || (ascii && 0x7F ≤ c.toNat) then charEscape c
  else [c]

/-- A string in double quotes. -/
def stringChars (ascii : Bool) (s : List Char) : List Char :=
  '"' :: s.flatMap (stringChar ascii) ++ ['"']

/-! ## Values -/

/-- Why a value has no JSON form. -/
inductive Unwritable where
  | value (kind : String)
  | key (kind : String)
  | longInteger
  | endless
deriving DecidableEq, Repr

def Unwritable.message : Unwritable → String
  | .value kind => "Object of type " ++ kind ++ " is not JSON serializable"
  | .key kind => "keys must be str, int, float, bool or None, not " ++ kind
  | .longInteger => Decimal.tooLong
  | .endless => "Circular reference detected"

/-- A floating-point number; JSON readers that know them accept the three words. -/
def doubleChars : Double → List Char
  | .nan => "NaN".toList
  | .infinite false => "Infinity".toList
  | .infinite true => "-Infinity".toList
  | x => x.chars

/-- A scalar as a value. -/
def scalarChars (ascii : Bool) : Scalar → Except Unwritable (List Char)
  | .null => .ok "null".toList
  | .bool true => .ok "true".toList
  | .bool false => .ok "false".toList
  | .int i => if (Scalar.int i).isLongInteger then .error .longInteger else .ok (Text.intDigits i)
  | .float x => .ok (doubleChars x)
  | .str s => .ok (stringChars ascii s.toList)
  | s => .error (.value s.kindName)

/-- A scalar as the name of a member: numbers, booleans and null become strings. -/
def keyChars (ascii : Bool) (k : Scalar) : Except Unwritable (List Char) :=
  match k with
  | .str s => .ok (stringChars ascii s.toList)
  | .null | .bool _ | .int _ | .float _ => (scalarChars ascii k).map (stringChars ascii)
  | k => .error (.key k.kindName)

/-- How JSON is laid out: `indent` spaces more per level on lines of their own, or one line. -/
structure Layout where
  indent : Option Nat
  ascii : Bool

/-- Two spaces per level, characters outside ASCII as they are. -/
def Layout.readable : Layout := { indent := some 2, ascii := false }

/-- Two spaces per level, ASCII only. -/
def Layout.indented : Layout := { indent := some 2, ascii := true }

/-- One line, ASCII only. -/
def Layout.line : Layout := { indent := none, ascii := true }

/-- The parts of a container between its brackets. -/
def Layout.enclose (l : Layout) (level : Nat) (opening closing : Char) (parts : List (List Char)) :
    List Char :=
  if parts.isEmpty then [opening, closing]
  else match l.indent with
    | none => opening :: Text.joinWith [',', ' '] parts ++ [closing]
    | some width =>
      let inner := '\n' :: List.replicate (width * (level + 1)) ' '
      let outer := '\n' :: List.replicate (width * level) ' '
      opening :: inner ++ Text.joinWith (',' :: inner) parts ++ outer ++ [closing]

mutual

/-- A value at a level of nesting. -/
def chars (l : Layout) (level : Nat) : Value → Except Unwritable (List Char)
  | .scalar s => scalarChars l.ascii s
  | .list xs => (itemChars l (level + 1) xs).map (l.enclose level '[' ']')
  | .map es => (memberChars l (level + 1) es).map (l.enclose level '{' '}')
  | .set _ => .error (.value "set")
  | .pair a b => do
    let x ← chars l (level + 1) a
    let y ← chars l (level + 1) b
    pure (l.enclose level '[' ']' [x, y])
  | .knot _ body => chars l level body
  | .again _ => .error .endless

/-- The items of a list. -/
def itemChars (l : Layout) (level : Nat) : List Value → Except Unwritable (List (List Char))
  | [] => .ok []
  | x :: xs => do
    let c ← chars l level x
    let cs ← itemChars l level xs
    pure (c :: cs)

/-- The members of an object. -/
def memberChars (l : Layout) (level : Nat) :
    List (Scalar × Value) → Except Unwritable (List (List Char))
  | [] => .ok []
  | (k, v) :: es => do
    let kc ← keyChars l.ascii k
    let vc ← chars l level v
    let cs ← memberChars l level es
    pure ((kc ++ ':' :: ' ' :: vc) :: cs)

end

/-- A value as JSON text. -/
def write (l : Layout) (v : Value) : Except Unwritable String :=
  (chars l 0 v).map String.ofList

end Flowscript.Json
