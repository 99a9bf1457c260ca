/-
  Flowscript.Yaml.Scalar

  The values of scalars of each type.
-/
import Flowscript.Text.LowerCase
import Flowscript.Yaml.Problem
import Flowscript.Yaml.Tag

namespace Flowscript.Yaml

/-! ## Integers -/

/-- The value of a digit in bases up to sixteen. -/
def digitIn? (base : Nat) (c : Char) : Option Nat :=
  let v? := if c.isDigit then some (c.toNat - 48)
    else if 'a' ≤ c && c ≤ 'f' then some (c.toNat - 87)
    else if 'A' ≤ c && c ≤ 'F' then some (c.toNat - 55)
    else none
  v?.filter (· < base)

/-- The letter that may follow a zero in front of digits of a base. -/
def baseLetter (base : Nat) : Char :=
  if base = 2 then 'b' else if base = 8 then 'o' else if base = 16 then 'x' else '0'

/-- Without a zero and the letter of the base. -/
def dropBase (base : Nat) (s : List Char) : List Char :=
  match s with
  | '0' :: c :: rest => if base ≠ 10 && c.toLower = baseLetter base then rest else s
  | s => s

/-- Digits of a base, at least one and in base ten not too many. -/
def natIn? (base : Nat) (s : List Char) : Option Nat :=
  if s.isEmpty || (base = 10 && Decimal.maxIntegerDigits < s.length) then none
  else s.foldlM (fun n c => (digitIn? base c).map fun d => base * n + d) 0

/-- An integer in a base, with blanks around it and a sign. -/
def intIn? (base : Nat) (s : List Char) : Option Int :=
  let core := (Text.dropEndWhile Double.isNumberBlank (s.dropWhile Double.isNumberBlank)).map
    Double.asciiDigit
  match core with
  | '-' :: r => (natIn? base (dropBase base r)).map fun n => -(n : Int)
  | '+' :: r => (natIn? base (dropBase base r)).map fun n => (n : Int)
  | r => (natIn? base (dropBase base r)).map fun n => (n : Int)

/-- Parts of base sixty, the last of which counts single units. -/
def fromSixties (parts : List Int) : Int := parts.foldl (fun n p => 60 * n + p) 0

/-- A number whose sign has been taken off. -/
def unsignedInt? (s : List Char) : Option Int :=
  match s with
  | '0' :: 'b' :: r => intIn? 2 r
  | '0' :: 'x' :: r => intIn? 16 r
  | '0' :: _ => intIn? 8 s
  | s =>
    if s.contains ':' then ((Text.splitOn ':' s).mapM (intIn? 10)).map fromSixties else intIn? 10 s

/-- Without underscores. -/
def dropUnderscores (s : List Char) : List Char := s.filter (· ≠ '_')

/-- The value of an integer: binary, octal, hexadecimal, decimal or of base sixty. -/
def intValue (text : String) : Except Problem Int :=
  let s := dropUnderscores text.toList
  match Tag.unsigned s with
  | [] => .error .emptyNumber
  | r => match unsignedInt? r with
    | some n => .ok (if s.head? = some '-' then -n else n)
    | none => .error (.badNumber text)

/-! ## Floating-point numbers -/

/-- The sum of parts and powers of sixty, the last part first. -/
def sumSixties (base : Nat) (sum : Double) : List Double → Double
  | [] => sum
  | part :: parts =>
    sumSixties (base * 60) (sum.add (part.mul (.ofRatio false base 1))) parts

/-- A floating-point number whose sign has been taken off. -/
def unsignedFloat? (s : List Char) : Option Double :=
  if s = ".inf".toList then some (.infinite false)
  else if s = ".nan".toList then some .nan
  else if s.contains ':' then
    ((Text.splitOn ':' s).mapM Double.read?).map fun parts =>
      sumSixties 1 (.zero false) parts.reverse
  else Double.read? s

/-- The value of a floating-point number. -/
def floatValue (text : String) : Except Problem Double :=
  let s := Text.lower (dropUnderscores text.toList)
  match s with
  | [] => .error .emptyNumber
  | s => match unsignedFloat? (Tag.unsigned s) with
    | some x => .ok (if s.head? = some '-' then x.neg else x)
    | none => .error (.badNumber text)

/-! ## Other types -/

/-- The value of a boolean, in any case. -/
def boolValue (text : String) : Except Problem Bool :=
  let word := Text.lowerString text
  if word ∈ ["yes", "true", "on"] then .ok true
  else if word ∈ ["no", "false", "off"] then .ok false
  else .error (.badSwitch text)

/-- The value of a date or a time, which may end with a line feed. -/
def timeValue (text : String) : Except Problem Scalar :=
  match timestamp? (Text.dropFinalNewline text.toList) with
  | none => .error (.badTime text)
  | some t => match t.scalar? with
    | some s => .ok s
    | none => .error (.impossibleTime text)

/-- The six bits a character of binary data stands for. -/
def sextet? (c : Char) : Option Nat :=
  if c.isUpper then some (c.toNat - 65)
  else if c.isLower then some (c.toNat - 71)
  else if c.isDigit then some (c.toNat + 4)
  else if c = '+' then some 62
  else if c = '/' then some 63
  else none

/-- The bytes of binary data.  `held` are the sextets of the group being read, at most three, and
`pads` the padding seen since the last one; other characters are passed over, and enough padding
ends the data. -/
def decodeBinary (held : List Nat) (pads : Nat) : List Char → Option (List UInt8)
  | [] => if held.isEmpty then some [] else none
  | c :: rest =>
    if c = '=' then
      if 2 ≤ held.length && 4 ≤ held.length + pads + 1 then some []
      else decodeBinary held (if 2 ≤ held.length then pads + 1 else pads) rest
    else match sextet? c, held with
      | none, _ => decodeBinary held pads rest
      | some v, [] => decodeBinary [v] 0 rest
      | some v, [a] => (decodeBinary [a, v] 0 rest).map (UInt8.ofNat (a * 4 + v / 16) :: ·)
      | some v, [a, b] =>
        (decodeBinary [a, b, v] 0 rest).map (UInt8.ofNat (b % 16 * 16 + v / 4) :: ·)
      | some v, held =>
        (decodeBinary [] 0 rest).map (UInt8.ofNat (held.getLastD 0 % 4 * 64 + v) :: ·)

/-- The value of binary data. -/
def binaryValue (text : String) : Except Problem (List UInt8) :=
  if text.toList.any fun c => 0x80 ≤ c.toNat then .error .badBinary
  else match decodeBinary [] 0 text.toList with
    | some bytes => .ok bytes
    | none => .error .badBinary

/-- The value of a scalar of a type. -/
def scalarValue (tag : Tag) (text : String) : Except Problem Scalar :=
  match tag with
  | .null => .ok .null
  | .bool => (boolValue text).map .bool
  | .int => (intValue text).map .int
  | .float => (floatValue text).map .float
  | .str => .ok (.str text)
  | .timestamp => timeValue text
  | .binary => (binaryValue text).map .bytes
  | .seq | .map | .set | .omap | .pairs => .error (.wrongShape tag.name)
  | .merge | .value => .error (.unknownTag tag.name)
  | .other name => .error (.unknownTag name)

end Flowscript.Yaml
