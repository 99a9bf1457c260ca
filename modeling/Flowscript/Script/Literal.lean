/-
  Flowscript.Script.Literal

  Values as literals of the generated language: quoted strings, template literals,
  property keys, values on one line, and objects with one property per line.  Null,
  numbers that are not finite, and a value inside itself are written as `undefined`.
  Integers of very many digits cannot be written, nor can what has one in it.
-/
import Flowscript.Json.Writer
import Flowscript.Naming.Identifier

namespace Flowscript.Script

/-! ## Strings -/

/-- One character of a string literal between `q` and `q`. -/
def quoteChar (q c : Char) : List Char :=
  if c = '\\' then ['\\', '\\'] else if c = q then ['\\', q] else if c = '\n' then ['\\', 'n'] else [c]

/-- A string literal. -/
def quote (q : Char) (s : List Char) : List Char := q :: s.flatMap (quoteChar q) ++ [q]

/-- A string literal. -/
def quoteString (q : Char) (s : String) : String := String.ofList (quote q s.toList)

/-- The inside of a template literal: a backslash and a backtick are escaped, and so is a dollar
sign that an opening brace follows. -/
def templateBody : List Char → List Char
  | [] => []
  | '$' :: '{' :: rest => '\\' :: '$' :: '{' :: templateBody rest
  | c :: rest => (if c = '\\' || c = '`' then ['\\', c] else [c]) ++ templateBody rest

@[simp] theorem templateBody_nil : templateBody [] = [] := rfl

/-- A template literal. -/
def template (s : List Char) : List Char := '`' :: templateBody s ++ ['`']

/-- A template literal. -/
def templateString (s : String) : String := String.ofList (template s.toList)

/-- A property key: an identifier, with or without a line feed after it, stands for itself. -/
def key (s : List Char) : List Char :=
  if Naming.isIdentifier (Text.dropFinalNewline s) then s else quote '\'' s

/-! ## Values -/

/-- The word for a value that is not there. -/
def undefined : List Char := "undefined".toList

/-- A number: integral values without a point. -/
def double (x : Double) : List Char :=
  match x with
  | .nan | .infinite _ => undefined
  | .finite .. => match x.toInt? with
    | some i => Text.intDigits i
    | none => x.chars

/-- A scalar; dates, times and byte strings are quoted twice. -/
def scalar (q : Char) : Scalar → List Char
  | .null => undefined
  | .bool true => "true".toList
  | .bool false => "false".toList
  | .int i => Text.intDigits i
  | .float x => double x
  | .str s => quote q s.toList
  | s => quote q (Json.stringChars true s.displayChars)

mutual

/-- A value on one line. -/
def value (q : Char) : Value → List Char
  | .scalar s => scalar q s
  | .list xs => '[' :: Text.joinWith [',', ' '] (values q xs) ++ [']']
  | .map [] => ['{', '}']
  | .map (e :: es) => '{' :: ' ' :: Text.joinWith [',', ' '] (properties q (e :: es)) ++ [' ', '}']
  | .set ms => quote q (Json.stringChars true (Value.set ms).inspect)
  | .pair a b => '[' :: value q a ++ ',' :: ' ' :: value q b ++ [']']
  | .knot _ body => value q body
  | .again _ => undefined

/-- The items of a list. -/
def values (q : Char) : List Value → List (List Char)
  | [] => []
  | x :: xs => value q x :: values q xs

/-- The properties of an object. -/
def properties (q : Char) : List (Scalar × Value) → List (List Char)
  | [] => []
  | (k, v) :: es => (key k.displayChars ++ ':' :: ' ' :: value q v) :: properties q es

end

mutual

/-- A value with the properties of an object on lines of their own, `width` spaces deeper per
level; properties that are null are left out, also inside. -/
def layout (q : Char) (width level : Int) : Value → List Char
  | .map (e :: es) =>
    '{' :: '\n' :: Text.joinWith [',', '\n'] (laidOut q width (level + 1) (e :: es)) ++
      ',' :: '\n' :: Text.spaces (width * level) ++ ['}']
  | v => value q v

/-- The properties of an object that are not null, each on its line. -/
def laidOut (q : Char) (width level : Int) : List (Scalar × Value) → List (List Char)
  | [] => []
  | (k, v) :: es =>
    let rest := laidOut q width level es
    if v.isNull then rest
    else (Text.spaces (width * level) ++ key k.displayChars ++ ':' :: ' ' :: layout q width level v)
      :: rest

end

/-! ## Integers without a text -/

/-- A value on one line, unless an integer is too long to be written. -/
def value? (q : Char) (v : Value) : Option (List Char) :=
  if v.hasLongInteger then none else some (value q v)

mutual

/-- What is laid out of a value has an integer that is too long to be written. -/
def hasLongPart : Value → Bool
  | .map es => anyLongPart es
  | v => v.hasLongInteger

/-- One of the entries is laid out and has an integer that is too long to be written. -/
def anyLongPart : List (Scalar × Value) → Bool
  | [] => false
  | (k, v) :: es => (!v.isNull && (k.isLongInteger || hasLongPart v)) || anyLongPart es

end

/-- A value with the properties of an object on lines of their own, unless an integer is too long
to be written. -/
def layout? (q : Char) (width level : Int) (v : Value) : Option (List Char) :=
  if hasLongPart v then none else some (layout q width level v)

end Flowscript.Script
