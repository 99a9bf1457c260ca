/-
  Flowscript.Script.Shape

  The type of a value in the generated language.  The items of a list give one item
  type, or a union of the different ones in the order of their texts.  A list that is
  among its own items has no type.
-/
import Flowscript.Workflow.Refusal

namespace Flowscript.Script

/-- A type of the generated language. -/
inductive Shape where
  | string
  | number
  | boolean
  | record
  | unknown
  | array (item : Shape)
  | mixed (items : List Shape)
deriving Repr, Inhabited

namespace Shape

mutual

/-- The text of a type. -/
def text : Shape → String
  | .string => "string"
  | .number => "number"
  | .boolean => "boolean"
  | .record => "Record<string, unknown>"
  | .unknown => "unknown"
  | .array item => text item ++ "[]"
  | .mixed items => "Array<" ++ Text.join " | " (texts items) ++ ">"

/-- The texts of several types. -/
def texts : List Shape → List String
  | [] => []
  | s :: ss => text s :: texts ss

end

/-- The types with different texts, sorted by their texts. -/
def alternatives (ss : List Shape) : List Shape :=
  (ss.eraseDupsBy fun a b => a.text == b.text).mergeSort fun a b => Text.le a.text b.text

/-- The type of a list whose items have the given types. -/
def ofItems (ss : List Shape) : Shape :=
  match alternatives ss with
  | [s] => .array s
  | alternatives => .mixed alternatives

/-- The type of a scalar; dates, times and byte strings count as texts. -/
def ofScalar : Scalar → Shape
  | .null => .unknown
  | .bool _ => .boolean
  | .int _ => .number
  | .float _ => .number
  | _ => .string

mutual

/-- The type of a value. -/
def ofValue : Value → Shape
  | .scalar s => ofScalar s
  | .list [] => .array .unknown
  | .list (x :: xs) => ofItems (ofValue x :: ofValues xs)
  | .map _ => .record
  | .set _ => .string
  | .pair a b => ofItems [ofValue a, ofValue b]
  | .knot _ body => ofValue body
  | .again _ => .unknown

/-- The types of several values. -/
def ofValues : List Value → List Shape
  | [] => []
  | x :: xs => ofValue x :: ofValues xs

end

end Shape

/-! ## Values without a type -/

/-- What keeps a value from being typed or written. -/
inductive Obstacle where
  | endless
  | longInteger
deriving DecidableEq, Repr, Inhabited

/-- What an obstacle ends the work with. -/
def Obstacle.fault : Obstacle → Fault
  | .endless => .endless
  | .longInteger => .longInteger

namespace Shape

mutual

/-- What keeps a value from having a type: the items of a list, their items and so on never end,
or one of them is a set, which counts as its text, and the text has an integer too long for it. -/
def obstacle? : Value → Option Obstacle
  | .list xs => firstObstacle? xs
  | .set ms => if ms.any Scalar.isLongInteger then some .longInteger else none
  | .pair a b => (obstacle? a).or (obstacle? b)
  | .knot _ body => obstacle? body
  | .again _ => some .endless
  | .scalar _ | .map _ => none

/-- The first obstacle among values. -/
def firstObstacle? : List Value → Option Obstacle
  | [] => none
  | x :: xs => (obstacle? x).or (firstObstacle? xs)

end

end Shape

end Flowscript.Script
