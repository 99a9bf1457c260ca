/-
  Flowscript.Settings.Field

  Reading of option fields.  Values are taken in the form they have or in one that
  stands for it: a switch may be a word or a number, a whole number may be a text.
  All faulty fields are reported, in the order in which they are read.
-/
import Flowscript.Value.Display
import Flowscript.Number.Decimal

namespace Flowscript

/-! ## Faults -/

/-- What is wrong with the value of a field. -/
inductive FieldProblem where
  | notText
  | pattern
  | notSwitch
  | badSwitch
  | notInteger
  | badInteger
  | longInteger
  | fractional
  | notFinite
  | tooSmall
  | tooLarge
  | notGroup
  | notTable
deriving DecidableEq, Repr

def FieldProblem.code : FieldProblem → String
  | .notText => "string_type"
  | .pattern => "string_pattern_mismatch"
  | .notSwitch => "bool_type"
  | .badSwitch => "bool_parsing"
  | .notInteger => "int_type"
  | .badInteger => "int_parsing"
  | .longInteger => "int_parsing_size"
  | .fractional => "int_from_float"
  | .notFinite => "finite_number"
  | .tooSmall => "greater_than_equal"
  | .tooLarge => "less_than_equal"
  | .notGroup => "model_type"
  | .notTable => "dict_type"

/-- A faulty field: the names that lead to it, and what is wrong. -/
structure FieldFault where
  path : List String
  problem : FieldProblem
deriving DecidableEq, Repr

def FieldFault.text (f : FieldFault) : String :=
  Text.join "." f.path ++ ":" ++ f.problem.code

/-! ## Values of fields -/

namespace Field

/-- A text. -/
def text : Value → Except FieldProblem String
  | .scalar (.str s) => .ok s
  | _ => .error .notText

def onWords : List String := ["1", "t", "y", "true", "yes", "on"]

def offWords : List String := ["0", "f", "n", "false", "no", "off"]

/-- The bound of integers of 64 bits with a sign. -/
def wordBound : Nat := Nat.pow 2 63

/-- A switch: a truth value, zero or one, or a word for on or off in any case.  Other integers are
bad switches if they have at most 64 bits, and none at all otherwise. -/
def switch : Value → Except FieldProblem Bool
  | .scalar (.bool b) => .ok b
  | .scalar (.int i) =>
    if i = 0 then .ok false
    else if i = 1 then .ok true
    else if -(wordBound : Int) ≤ i && i < wordBound then .error .badSwitch
    else .error .notSwitch
  | .scalar (.float x) => match x.toInt? with
    | some i => if i = 0 then .ok false else if i = 1 then .ok true else .error .notSwitch
    | none => .error .notSwitch
  | .scalar (.str s) =>
    let word := String.ofList (s.toList.map Char.toLower)
    if word ∈ onWords then .ok true else if word ∈ offWords then .ok false else .error .badSwitch
  | _ => .error .notSwitch

/-- Without a point and the zeros after it at the end of a number; a point without zeros stays. -/
def dropPlaces (s : List Char) : List Char :=
  let (whole, places?) := Text.cutAt '.' s
  match places? with
  | some places => if !places.isEmpty && places.all (· = '0') then whole else s
  | none => s

/-- The digits of a number with single underscores between them taken out; with `inside`, one may
also stand before the first digit. -/
def joinedDigits? (inside : Bool) (s : List Char) : Option (List Char) :=
  match Double.joinDigits? inside s with
  | some ds => if !ds.isEmpty && ds.all Char.isDigit then some ds else none
  | none => none

/-- The value of digits after a minus sign; they do not start with a zero that says nothing. -/
def negative? (ds : List Char) : Option Int :=
  if ds.head? = some '0' && ds ≠ ['0'] then none else some (-(digitsValue ds : Int))

/-- A whole number as a text: blanks around it, a sign, and zeros after a point are allowed. -/
def integerText? (s : List Char) : Option Int :=
  let core := dropPlaces (Text.dropEndWhile Double.isNumberBlank (s.dropWhile Double.isNumberBlank))
  match core with
  | '-' :: ds => (joinedDigits? true ds).bind negative?
  | '+' :: ds => (joinedDigits? false ds).map fun ds => (digitsValue ds : Int)
  | ds => (joinedDigits? false ds).map fun ds => (digitsValue ds : Int)

/-- A whole number.  One that is not given as such has a limited size. -/
def integer : Value → Except FieldProblem Int
  | .scalar (.bool b) => .ok (if b then 1 else 0)
  | .scalar (.int i) => .ok i
  | .scalar (.float x) => match x with
    | .finite .. => match x.toInt? with
      | some i => if i.natAbs < wordBound then .ok i else .error .longInteger
      | none => .error .fractional
    | _ => .error .notFinite
  | .scalar (.str s) => match integerText? s.toList with
    | some i => if (Scalar.int i).isLongInteger then .error .longInteger else .ok i
    | none => .error .badInteger
  | _ => .error .notInteger

/-- A whole number between bounds, which are included. -/
def natUpTo (high : Nat) (v : Value) : Except FieldProblem Nat :=
  match integer v with
  | .ok i =>
    if i < 0 then .error .tooSmall else if (high : Int) < i then .error .tooLarge else .ok i.toNat
  | .error e => .error e

end Field

/-! ## Reading several fields -/

/-- Reading that collects faults. -/
abbrev FieldReader := StateM (List FieldFault)

namespace FieldReader

def fail (path : List String) (problem : FieldProblem) : FieldReader Unit :=
  modify fun fs => fs ++ [{ path, problem }]

/-- The value of a field; its default if it is not there or faulty. -/
def field {α : Type} (es : Entries) (path : List String) (name : String) (default : α)
    (read : Value → Except FieldProblem α) : FieldReader α :=
  match es.field? name with
  | none => pure default
  | some v => match read v with
    | .ok x => pure x
    | .error problem => do
      fail (path ++ [name]) problem
      pure default

/-- The result of a reading without faults. -/
def result {α : Type} (r : FieldReader α) : Except (List FieldFault) α :=
  match r.run [] with
  | (x, []) => .ok x
  | (_, faults) => .error faults

end FieldReader

end Flowscript
