/-
  Flowscript.Value.Basic

  Document values: scalars, lists, sets, pairs, and mappings that keep the order of
  their entries.  A mapping read from a document holds each key once; inserting under
  a key that is present replaces the value and keeps the place and spelling of the
  first key.  A value may contain itself: a knot names its body, and inside the body
  `again` stands for the knot of that name.
-/
import Flowscript.Value.Scalar

namespace Flowscript

/-- A document value. -/
inductive Value where
  | scalar (s : Scalar)
  | list (items : List Value)
  | map (entries : List (Scalar × Value))
  | set (members : List Scalar)
  | pair (first second : Value)
  | knot (name : Nat) (body : Value)
  | again (name : Nat)
deriving Repr, Inhabited

/-- The entries of a mapping. -/
abbrev Entries := List (Scalar × Value)

namespace Entries

/-- The value under a key. -/
def get? (es : Entries) (k : Scalar) : Option Value :=
  (es.find? fun e => e.1.sameKey k).map (·.2)

/-- The value under a text key. -/
def field? (es : Entries) (name : String) : Option Value := es.get? (.str name)

/-- Whether a key is present. -/
def has (es : Entries) (k : Scalar) : Bool := es.any fun e => e.1.sameKey k

/-- Puts a value under a key: in place if the key is present, at the end otherwise. -/
def insert (k : Scalar) (v : Value) : Entries → Entries
  | [] => [(k, v)]
  | (k', v') :: es => if k'.sameKey k then (k', v) :: es else (k', v') :: insert k v es

@[simp] theorem get?_nil (k : Scalar) : get? [] k = none := rfl

@[simp] theorem insert_nil (k : Scalar) (v : Value) : insert k v [] = [(k, v)] := rfl

end Entries

namespace Value

@[match_pattern] abbrev null : Value := .scalar .null

@[match_pattern] abbrev bool (b : Bool) : Value := .scalar (.bool b)

@[match_pattern] abbrev int (i : Int) : Value := .scalar (.int i)

@[match_pattern] abbrev float (x : Double) : Value := .scalar (.float x)

@[match_pattern] abbrev str (s : String) : Value := .scalar (.str s)

/-- Neither null, false, zero nor empty. -/
def isTruthy : Value → Bool
  | .scalar s => s.isTruthy
  | .list xs => !xs.isEmpty
  | .map es => !es.isEmpty
  | .set ms => !ms.isEmpty
  | .pair .. => true
  | .knot .. => true
  | .again _ => true

/-- The value is null. -/
def isNull : Value → Bool
  | .null => true
  | _ => false

/-- The value is the empty text. -/
def isEmptyText : Value → Bool
  | .str s => s = ""
  | _ => false

/-- A mapping with text keys. -/
def record (fields : List (String × Value)) : Value :=
  .map (fields.map fun f => (.str f.1, f.2))

/-- A list of texts. -/
def strings (xs : List String) : Value := .list (xs.map .str)

/-! ## Values that contain themselves -/

mutual

/-- The value contains itself, or a value that does. -/
def isEndless : Value → Bool
  | .scalar _ => false
  | .list xs => anyEndless xs
  | .map es => anyEndlessEntry es
  | .set _ => false
  | .pair a b => isEndless a || isEndless b
  | .knot .. => true
  | .again _ => true

/-- One of the values contains itself. -/
def anyEndless : List Value → Bool
  | [] => false
  | x :: xs => isEndless x || anyEndless xs

/-- One of the entries has a value that contains itself. -/
def anyEndlessEntry : List (Scalar × Value) → Bool
  | [] => false
  | (_, v) :: es => isEndless v || anyEndlessEntry es

end

mutual

/-- The value with another one in all places that stand for the knot of a name. -/
def tie (name : Nat) (knot : Value) : Value → Value
  | .scalar s => .scalar s
  | .list xs => .list (tieItems name knot xs)
  | .map es => .map (tieEntries name knot es)
  | .set ms => .set ms
  | .pair a b => .pair (tie name knot a) (tie name knot b)
  | .knot n body => if n = name then .knot n body else .knot n (tie name knot body)
  | .again n => if n = name then knot else .again n

def tieItems (name : Nat) (knot : Value) : List Value → List Value
  | [] => []
  | x :: xs => tie name knot x :: tieItems name knot xs

def tieEntries (name : Nat) (knot : Value) : List (Scalar × Value) → List (Scalar × Value)
  | [] => []
  | (k, v) :: es => (k, tie name knot v) :: tieEntries name knot es

end

/-- The value seen from outside: the body of a knot, which has the knot itself in the places that
stand for it. -/
def opened : Value → Value
  | .knot name body => tie name (.knot name body) body
  | v => v

@[simp] theorem opened_scalar (s : Scalar) : opened (.scalar s) = .scalar s := rfl

@[simp] theorem opened_list (xs : List Value) : opened (.list xs) = .list xs := rfl

@[simp] theorem opened_map (es : Entries) : opened (.map es) = .map es := rfl

end Value

end Flowscript
