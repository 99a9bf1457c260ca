/-
  Flowscript.Settings.Dotenv

  Environment files: a variable and its value on each line, comments, and quotes
  around values that need them.  A line that is none of these is passed over.  A value
  may refer to a variable that is set before it.
-/
import Flowscript.Text.Blank

namespace Flowscript.Dotenv

/-- White space inside a line. -/
def isGap (c : Char) : Bool := Text.isBlank c && c ≠ '\n' && c ≠ '\r'

def isLineEnd (c : Char) : Bool := c = '\n' || c = '\r'

/-- The text after the current line. -/
def nextLine (s : List Char) : List Char :=
  match s.dropWhile fun c => !isLineEnd c with
  | '\r' :: '\n' :: rest => rest
  | _ :: rest => rest
  | [] => []

/-- The text up to the closing quote, with its escapes, and the text after it.  A quote behind a
backslash closes only if no other one does. -/
def quotedText (q : Char) : List Char → Option (List Char × List Char)
  | [] => none
  | '\\' :: c :: rest =>
    if c = q then
      match quotedText q rest with
      | some (text, after) => some ('\\' :: c :: text, after)
      | none => some (['\\'], rest)
    else (quotedText q (c :: rest)).map fun (text, after) => ('\\' :: text, after)
  | c :: rest =>
    if c = q then some ([], rest)
    else (quotedText q rest).map fun (text, after) => (c :: text, after)

/-- A text with the escapes that `escaped?` knows resolved. -/
def resolveEscapes (escaped? : Char → Option Char) : List Char → List Char
  | [] => []
  | '\\' :: c :: rest => match escaped? c with
    | some e => e :: resolveEscapes escaped? rest
    | none => '\\' :: resolveEscapes escaped? (c :: rest)
  | c :: rest => c :: resolveEscapes escaped? rest

/-- A value in quotes whose opening quote has been read, and the text after it. -/
def quotedValue (q : Char) (escaped? : Char → Option Char) (s : List Char) :
    Option (List Char × List Char) :=
  (quotedText q s).map fun (text, after) => (resolveEscapes escaped? text, after)

/-- Escapes between single quotes. -/
def singleEscape? (c : Char) : Option Char := if c = '\\' || c = '\'' then some c else none

/-- Escapes between double quotes. -/
def doubleEscape? (c : Char) : Option Char :=
  match c with
  | '\\' => some '\\'
  | '\'' => some '\''
  | '"' => some '"'
  | 'a' => some (Char.ofNat 7)
  | 'b' => some (Char.ofNat 8)
  | 'f' => some (Char.ofNat 12)
  | 'n' => some '\n'
  | 'r' => some '\r'
  | 't' => some '\t'
  | 'v' => some (Char.ofNat 11)
  | _ => none

/-- A value without quotes, up to a comment that white space goes before. -/
def plainValue (afterBlank : Bool) : List Char → List Char
  | [] => []
  | c :: rest =>
    if afterBlank && c = '#' then [] else c :: plainValue (Text.isBlank c) rest

/-- Nothing but a comment is left on the line. -/
def onlyComment (s : List Char) : Bool :=
  match s.dropWhile isGap with
  | [] => true
  | c :: _ => c = '#' || isLineEnd c

/-- The value after an equals sign and the text after it; nothing if a quote is not closed. -/
def value? (s : List Char) : Option (List Char × List Char) :=
  match s with
  | '\'' :: rest => quotedValue '\'' singleEscape? rest
  | '"' :: rest => quotedValue '"' doubleEscape? rest
  | s =>
    let (line, rest) := s.span fun c => !isLineEnd c
    some (Text.trimEnd (plainValue false line), rest)

/-- Without the word that marks a variable for other programs. -/
def dropExport (s : List Char) : List Char :=
  match Text.after? "export".toList s with
  | some (c :: rest) => if isGap c then rest.dropWhile isGap else s
  | _ => s

/-- The name of a variable, in single quotes or not, and the text after it. -/
def name? (s : List Char) : Option (List Char × List Char) :=
  match s with
  | '\'' :: rest =>
    let (name, after) := rest.span (· ≠ '\'')
    if name.isEmpty || after.isEmpty then none else some (name, after.drop 1)
  | s =>
    let (name, after) := s.span fun c => c ≠ '=' && c ≠ '#' && !Text.isBlank c
    if name.isEmpty then none else some (name, after)

/-- What a line says: the variable it sets, if it is well-formed and has a value, and the text
after what was read of it. -/
def binding (s : List Char) : Option (String × String) × List Char :=
  match name? (dropExport s) with
  | none => (none, s)
  | some (name, rest) => match rest.dropWhile isGap with
    | '=' :: rest => match value? (rest.dropWhile isGap) with
      | some (value, rest) =>
        (if onlyComment rest then some (String.ofList name, String.ofList value) else none, rest)
      | none => (none, rest)
    | rest => (none, rest)

/-- The variables of a text; every step takes at least one line. -/
def bindings : Nat → List Char → List (String × String)
  | 0, _ => []
  | n + 1, s =>
    match Text.trimStart s with
    | [] => []
    | s =>
      let (found, rest) := binding s
      found.toList ++ bindings n (nextLine rest)

/-! ## References between variables -/

/-- The reference to a variable at the start of a text: the name, what stands for a variable that
is not set, and the text after it. -/
def reference? (s : List Char) : Option (List Char × List Char × List Char) :=
  match s with
  | '$' :: '{' :: rest =>
    let (name, rest) := rest.span fun c => c ≠ '}' && c ≠ ':'
    match rest with
    | '}' :: after => some (name, [], after)
    | ':' :: '-' :: rest =>
      let (fallback, rest) := rest.span (· ≠ '}')
      if rest.isEmpty then none else some (name, fallback, rest.drop 1)
    | _ => none
  | _ => none

/-- A text with its references replaced by the values of variables; every step takes at least one
character. -/
def expand (known : List (String × String)) : Nat → List Char → List Char
  | _, [] => []
  | 0, s => s
  | n + 1, c :: rest => match reference? (c :: rest) with
    | some (name, fallback, after) =>
      ((known.lookup (String.ofList name)).map String.toList).getD fallback ++ expand known n after
    | none => c :: expand known n rest

/-- Variables with references to earlier and to `known` ones replaced; earlier ones win. -/
def expandAll (known : List (String × String)) :
    List (String × String) → List (String × String)
  | [] => []
  | (name, text) :: rest =>
    let value := String.ofList (expand known text.length text.toList)
    (name, value) :: expandAll ((name, value) :: known) rest

/-- The variables of an environment file, in order; its values may refer to those of the
environment `known`. -/
def read (known : List (String × String)) (text : String) : List (String × String) :=
  expandAll known (bindings (text.length + 1) text.toList)

end Flowscript.Dotenv
