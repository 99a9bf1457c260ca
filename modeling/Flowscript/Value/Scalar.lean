/-
  Flowscript.Value.Scalar

  The values a workflow document holds at its leaves, which are also the keys of its
  mappings.  As keys, equal numbers of different kinds are one key: `Scalar.key`
  gives each scalar the representative of its class.
-/
import Flowscript.Number.Double

namespace Flowscript

/-- A day of the calendar. -/
structure Date where
  year : Nat
  month : Nat
  day : Nat
deriving DecidableEq, Repr, Inhabited

/-- A point in time; `offset` is the zone's distance from universal time in minutes. -/
structure DateTime where
  date : Date
  hour : Nat
  minute : Nat
  second : Nat
  microsecond : Nat
  offset : Option Int
deriving DecidableEq, Repr, Inhabited

/-- A value without parts. -/
inductive Scalar where
  | null
  | bool (b : Bool)
  | int (i : Int)
  | float (x : Double)
  | str (s : String)
  | date (d : Date)
  | time (t : DateTime)
  | bytes (b : List UInt8)
deriving DecidableEq, Repr, Inhabited

namespace Scalar

/-- The representative of a scalar as a key: booleans and integral numbers are integers. -/
def key : Scalar → Scalar
  | .bool b => .int (if b then 1 else 0)
  | .float x => match x.toInt? with
    | some i => .int i
    | none => .float x
  | s => s

@[simp] theorem key_str (s : String) : key (.str s) = .str s := rfl

@[simp] theorem key_int (i : Int) : key (.int i) = .int i := rfl

/-- The two scalars are one key. -/
def sameKey (a b : Scalar) : Bool := a.key = b.key

@[simp] theorem sameKey_self (a : Scalar) : sameKey a a = true := by simp [sameKey]

/-- A text is the same key as another one only if they are equal. -/
theorem sameKey_str_iff (s t : String) : sameKey (.str s) (.str t) = true ↔ s = t := by
  simp [sameKey]

/-- Neither null, false, zero nor empty. -/
def isTruthy : Scalar → Bool
  | .null => false
  | .bool b => b
  | .int i => i ≠ 0
  | .float (.finite _ m _) => m ≠ 0
  | .float _ => true
  | .str s => s ≠ ""
  | .date _ => true
  | .time _ => true
  | .bytes b => !b.isEmpty

end Scalar

end Flowscript
