/-
  Flowscript.Workflow.Parameter

  Parameters of workflow nodes.  Their values are loosely typed, so each carries its
  kind, and a value that was not given is a kind of its own.
-/
import Flowscript.Value.Display
import Flowscript.Number.Decimal
import Flowscript.Text.LowerCase

namespace Flowscript

/-! ## Kinds and values -/

/-- The kinds of parameter values. -/
inductive ParameterKind where
  | string
  | number
  | boolean
  | object
  | array
  | missing
deriving DecidableEq, Repr, Inhabited

def ParameterKind.name : ParameterKind → String
  | .string => "string"
  | .number => "number"
  | .boolean => "boolean"
  | .object => "object"
  | .array => "array"
  | .missing => "missing"

/-- A number of a document: an integer, or a floating-point number. -/
inductive Number where
  | int (i : Int)
  | float (x : Double)
deriving DecidableEq, Repr, Inhabited

namespace Number

def toScalar : Number → Scalar
  | .int i => .int i
  | .float x => .float x

def toValue (n : Number) : Value := .scalar n.toScalar

/-- A floating-point number that is integral counts as an integer. -/
def ofDouble (x : Double) : Number :=
  match x.toInt? with
  | some i => .int i
  | none => .float x

end Number

/-- The value of a parameter. -/
inductive ParameterValue where
  | missing
  | boolean (b : Bool)
  | number (n : Number)
  | string (s : String)
  | object (entries : Entries)
  | array (items : List Value)
deriving Repr, Inhabited

namespace ParameterValue

/-- The parameter value of a document value: null is missing, a pair is a list of two, and a set
or a scalar of any other kind is its text. -/
def ofValue (v : Value) : ParameterValue :=
  match v.opened with
  | .scalar .null => .missing
  | .scalar (.bool b) => .boolean b
  | .scalar (.int i) => .number (.int i)
  | .scalar (.float x) => .number (.float x)
  | .scalar (.str s) => .string s
  | .scalar s => .string s.display
  | .list xs => .array xs
  | .map es => .object es
  | .pair a b => .array [a, b]
  | v => .string v.display

def kind : ParameterValue → ParameterKind
  | .missing => .missing
  | .boolean _ => .boolean
  | .number _ => .number
  | .string _ => .string
  | .object _ => .object
  | .array _ => .array

def isMissing (v : ParameterValue) : Bool := v.kind = .missing

/-- The entries of an object. -/
def entries : ParameterValue → Entries
  | .object es => es
  | _ => []

/-- The document value, unless it is missing. -/
def raw? : ParameterValue → Option Value
  | .missing => none
  | .boolean b => some (.bool b)
  | .number n => some n.toValue
  | .string s => some (.str s)
  | .object es => some (.map es)
  | .array xs => some (.list xs)

/-- The value is a number that is too long to be written. -/
def isLong : ParameterValue → Bool
  | .number n => n.toScalar.isLongInteger
  | _ => false

/-- The text of a string, a number or a boolean. -/
def text? : ParameterValue → Option String
  | .boolean true => some "true"
  | .boolean false => some "false"
  | .number n => some n.toScalar.display
  | .string s => some s
  | _ => none

/-- The value of a number, or of a string that reads as one. -/
def number? : ParameterValue → Option Number
  | .number n => some n
  | .string s => (Double.read? s.toList).map Number.ofDouble
  | _ => none

/-- The value of a boolean, or of a string that spells one in any case. -/
def bool? : ParameterValue → Option Bool
  | .boolean b => some b
  | .string s =>
    let word := Text.lowerString s
    if word = "true" then some true else if word = "false" then some false else none
  | _ => none

/-- A loose check of kinds: numbers and booleans written as strings are accepted as such, and
any of the three as a string. -/
def conforms (v : ParameterValue) : ParameterKind → Bool
  | .number => v.number?.isSome
  | .boolean => v.bool?.isSome
  | .string => v.text?.isSome
  | k => v.kind = k

end ParameterValue

/-! ## Parameters -/

/-- A named parameter with its declared type. -/
structure Parameter where
  name : Scalar
  value : ParameterValue := .missing
  type : String := "string"
  required : Bool := false
  description : String := ""
deriving Repr, Inhabited

/-- The parameter holds a secret, which is read from the environment. -/
def Parameter.isCredential (p : Parameter) : Bool :=
  p.type = "credential" || p.type = "password"

/-- Parameters in the order of their names' first occurrence. -/
abbrev Parameters := List (Scalar × Parameter)

namespace Parameters

/-- The parameter of a name. -/
def get? (ps : Parameters) (k : Scalar) : Option Parameter :=
  (ps.find? fun e => e.1.sameKey k).map (·.2)

def has (ps : Parameters) (k : Scalar) : Bool := ps.any fun e => e.1.sameKey k

/-- Puts a parameter under a name, in place if the name is present. -/
def insert (k : Scalar) (p : Parameter) : Parameters → Parameters
  | [] => [(k, p)]
  | (k', p') :: ps => if k'.sameKey k then (k', p) :: ps else (k', p') :: insert k p ps

/-- Puts a parameter under its own name. -/
def add (ps : Parameters) (p : Parameter) : Parameters := ps.insert p.name p

end Parameters

end Flowscript
