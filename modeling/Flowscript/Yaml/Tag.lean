/-
  Flowscript.Yaml.Tag

  Types of values.  A plain scalar has the type whose form its text has, and is a text
  if it has none of them.  A line feed at the end of a text does not change its form.
-/
import Flowscript.Text.Basic
import Flowscript.Yaml.Timestamp

namespace Flowscript.Yaml

/-- The type of a value. -/
inductive Tag where
  | null
  | bool
  | int
  | float
  | str
  | timestamp
  | binary
  | seq
  | map
  | set
  | omap
  | pairs
  | merge
  | value
  | other (name : String)
deriving DecidableEq, Repr, Inhabited

namespace Tag

/-- The address that all known types have in common. -/
def base : String := "tag:yaml.org,2002:"

/-- The known types by name. -/
def known : List (String × Tag) := [
  ("null", .null), ("bool", .bool), ("int", .int), ("float", .float), ("str", .str),
  ("timestamp", .timestamp), ("binary", .binary), ("seq", .seq), ("map", .map),
  ("set", .set), ("omap", .omap), ("pairs", .pairs), ("merge", .merge), ("value", .value)]

/-- The type of an address. -/
def ofAddress (address : String) : Tag :=
  match Text.after? base.toList address.toList with
  | some name => (known.lookup (String.ofList name)).getD (.other address)
  | none => .other address

/-- The name of a type in messages. -/
def name (t : Tag) : String :=
  match t with
  | .other name => name
  | t => ((known.find? (·.2 = t)).map (·.1)).getD ""

/-! ## Forms of plain scalars -/

/-- Without a sign in front. -/
def unsigned (s : List Char) : List Char :=
  match s with
  | '-' :: r => r
  | '+' :: r => r
  | r => r

/-- Digits and underscores, of which a digit comes first. -/
def isDigits (s : List Char) : Bool :=
  match s with
  | c :: rest => c.isDigit && rest.all fun c => c.isDigit || c = '_'
  | [] => false

/-- An exponent with a letter and a sign; it may be missing. -/
def isExponent (s : List Char) : Bool :=
  match s with
  | [] => true
  | e :: sign :: ds =>
    (e = 'e' || e = 'E') && (sign = '-' || sign = '+') && !ds.isEmpty && ds.all Char.isDigit
  | _ => false

/-- Digits and underscores, then an exponent. -/
def isFraction (s : List Char) : Bool := isExponent (s.dropWhile fun c => c.isDigit || c = '_')

/-- One or two digits below sixty. -/
def isSixtieth (s : List Char) : Bool :=
  match s with
  | [a] => a.isDigit
  | [a, b] => '0' ≤ a && a ≤ '5' && b.isDigit
  | _ => false

/-- Numbers of base sixty, divided by colons, at least two. -/
def isSexagesimal (first : List Char → Bool) (s : List Char) : Bool :=
  match Text.splitOn ':' s with
  | a :: b :: rest => first a && (b :: rest).all isSixtieth
  | _ => false

def isBoolText (s : String) : Bool :=
  s ∈ ["yes", "Yes", "YES", "no", "No", "NO", "true", "True", "TRUE", "false", "False", "FALSE",
    "on", "On", "ON", "off", "Off", "OFF"]

def isFloatText (s : List Char) : Bool :=
  let (whole, places?) := Text.cutAt '.' (unsigned s)
  match places? with
  | none => false
  | some places =>
    (isDigits whole && isFraction places) ||
    (s.head? = some '.' && places.head?.any Char.isDigit && isFraction places) ||
    (isSexagesimal isDigits whole && places.all fun c => c.isDigit || c = '_') ||
    (whole.isEmpty && String.ofList places ∈ ["inf", "Inf", "INF"]) ||
    (s.head? = some '.' && String.ofList places ∈ ["nan", "NaN", "NAN"])

def isIntText (s : List Char) : Bool :=
  match unsigned s with
  | ['0'] => true
  | '0' :: 'b' :: ds => !ds.isEmpty && ds.all fun c => c = '0' || c = '1' || c = '_'
  | '0' :: 'x' :: ds =>
    !ds.isEmpty && ds.all fun c =>
      c.isDigit || ('a' ≤ c && c ≤ 'f') || ('A' ≤ c && c ≤ 'F') || c = '_'
  | '0' :: ds => ds.all fun c => ('0' ≤ c && c ≤ '7') || c = '_'
  | ds => isDigits ds || isSexagesimal isDigits ds

/-- The type of a text with the form of a plain scalar. -/
def ofForm (s : String) : Tag :=
  let cs := s.toList
  if isBoolText s then .bool
  else if isFloatText cs then .float
  else if isIntText cs then .int
  else if s = "<<" then .merge
  else if s ∈ ["", "~", "null", "Null", "NULL"] then .null
  else if isTimestamp cs then .timestamp
  else if s = "=" then .value
  else if s ∈ ["!", "&", "*"] then .other (base ++ "yaml")
  else .str

/-- The type of a plain scalar. -/
def ofPlain (s : String) : Tag :=
  if s = "\n" then .str else ofForm (String.ofList (Text.dropFinalNewline s.toList))

end Tag

end Flowscript.Yaml
