/-
  Flowscript.Yaml.Token

  The tokens of a YAML text, and the reading of those that stand for themselves:
  directives, anchors, aliases and tags.
-/
import Flowscript.Json.Reader
import Flowscript.Yaml.Block

namespace Flowscript.Yaml

/-- A tag as it is written: a handle, unless it is written in full, and the rest. -/
structure TagText where
  handle : Option String
  rest : String
deriving DecidableEq, Repr, Inhabited

/-- A token.  The starts and ends of block collections stand for changes of indentation. -/
inductive Token where
  | version (major : Nat)
  | handle (name meaning : String)
  | otherDirective
  | documentStart
  | documentEnd
  | blockSequence
  | blockMapping
  | blockEnd
  | flowSequence
  | flowSequenceEnd
  | flowMapping
  | flowMappingEnd
  | entry
  | comma
  | key
  | value
  | reference (name : String)
  | anchor (name : String)
  | tag (t : TagText)
  | scalar (isPlain : Bool) (text : String)
deriving DecidableEq, Repr, Inhabited

def Token.isDirective : Token → Bool
  | .version _ | .handle .. | .otherDirective => true
  | _ => false

/-! ## Names -/

/-- A character of a name. -/
def isNameChar (c : Char) : Bool := c.isAlphanum || c = '-' || c = '_'

/-- The text ends here, or a character that may follow a name. -/
def nameEnds : List Char → Bool
  | [] => true
  | c :: _ => isSpace c || isBreak c || c ∈ ['?', ':', ',', ']', '}', '%', '@', '`']

/-- The name of an anchor or alias whose mark has been read. -/
def anchorName (p : Place) (s : List Char) : Except Problem (Scanned String) :=
  let name := takeAlong isNameChar p s
  if name.value.isEmpty || !nameEnds name.rest then .error .badAnchor
  else .ok (name.map String.ofList)

/-! ## Tags -/

/-- A character of the address in a tag. -/
def isAddressChar (c : Char) : Bool :=
  c.isAlphanum ||
    c ∈ ['-', ';', '/', '?', ':', '@', '&', '=', '+', '$', ',', '_', '.', '!', '~', '*', '\'', '(', ')',
      '[', ']', '%']

/-- The characters that bytes stand for. -/
def ofBytes? (bytes : List UInt8) : Option (List Char) :=
  if bytes.isEmpty then some []
  else (String.fromUTF8? ⟨bytes.toArray⟩).map String.toList

/-- An address with its escapes resolved; `pending` are the bytes of the escapes just read. -/
def resolveEscapes (pending : List UInt8) : List Char → Option (List Char)
  | '%' :: a :: b :: rest => do
    let x ← Json.hexValue? a
    let y ← Json.hexValue? b
    resolveEscapes (pending ++ [UInt8.ofNat (16 * x + y)]) rest
  | c :: rest =>
    if c = '%' then none
    else do
      let before ← ofBytes? pending
      let after ← resolveEscapes [] rest
      pure (before ++ c :: after)
  | [] => ofBytes? pending

/-- The address in a tag. -/
def address (p : Place) (s : List Char) : Except Problem (Scanned String) :=
  let raw := takeAlong isAddressChar p s
  match resolveEscapes [] raw.value with
  | some text => if raw.value.isEmpty then .error .badTag else .ok (raw.map fun _ => String.ofList text)
  | none => .error .badTag

/-- A handle: `!`, `!!` or a name between two marks. -/
def tagHandle (p : Place) (s : List Char) : Except Problem (Scanned String) :=
  match s with
  | '!' :: ' ' :: _ => .ok ⟨"!", p.along ['!'], s.drop 1⟩
  | '!' :: rest =>
    let name := rest.takeWhile isNameChar
    match rest.dropWhile isNameChar with
    | '!' :: rest =>
      let text := '!' :: name ++ ['!']
      .ok ⟨String.ofList text, p.along text, rest⟩
    | _ => .error .badTag
  | _ => .error .badTag

/-- A tag, from its first mark on. -/
def tag (p : Place) (s : List Char) : Except Problem (Scanned TagText) := do
  let t ← match s with
    | '!' :: '<' :: rest => do
      let full ← address (p.along ['!', '<']) rest
      match full.rest with
      | '>' :: rest => pure (⟨⟨none, full.value⟩, full.place.along ['>'], rest⟩ : Scanned TagText)
      | _ => .error .badTag
    | '!' :: rest =>
      if gapFollows rest then pure ⟨⟨none, "!"⟩, p.along ['!'], rest⟩
      else if (rest.takeWhile fun c => c ≠ ' ' && !isBreak c).contains '!' then do
        let handle ← tagHandle p s
        let text ← address handle.place handle.rest
        pure (text.map fun t => ⟨some handle.value, t⟩)
      else do
        let text ← address (p.along ['!']) rest
        pure (text.map fun t => ⟨some "!", t⟩)
    | _ => .error .badTag
  if wordEnds t.rest then pure t else .error .badTag

/-! ## Directives -/

/-- A number of a version. -/
def versionPart (p : Place) (s : List Char) : Except Problem (Scanned Nat) :=
  let ds := takeAlong Char.isDigit p s
  if ds.value.isEmpty then .error .badDirective
  else .ok (ds.map fun ds => ds.foldl (fun n d => 10 * n + (d.toNat - 48)) 0)

/-- The version of a directive, of which the first number counts. -/
def versionDirective (p : Place) (s : List Char) : Except Problem (Scanned Token) := do
  let major ← versionPart p s
  match major.rest with
  | '.' :: rest =>
    let minor ← versionPart (major.place.along ['.']) rest
    if wordEnds minor.rest then pure (minor.map fun _ => .version major.value)
    else .error .badDirective
  | _ => .error .badDirective

/-- The handle of a directive and what it stands for. -/
def handleDirective (p : Place) (s : List Char) : Except Problem (Scanned Token) := do
  let handle ← tagHandle p s
  let spaces := takeAlong (· = ' ') handle.place handle.rest
  if spaces.value.isEmpty then .error .badDirective
  else
    let meaning ← address spaces.place spaces.rest
    if wordEnds meaning.rest then pure (meaning.map fun m => .handle handle.value m)
    else .error .badDirective

/-- A directive whose mark has been read, to the end of its line. -/
def directive (p : Place) (s : List Char) : Except Problem (Scanned Token) := do
  let name := takeAlong isNameChar p s
  if name.value.isEmpty || !wordEnds name.rest then .error .badDirective
  else
    let spaces := takeAlong (· = ' ') name.place name.rest
    let token ←
      if name.value = "YAML".toList then versionDirective spaces.place spaces.rest
      else if name.value = "TAG".toList then handleDirective spaces.place spaces.rest
      else pure ((takeAlong (fun c => !isBreak c) name.place name.rest).map fun _ => .otherDirective)
    match blankLine? token.place token.rest with
    | some rest => pure (rest.map fun _ => token.value)
    | none => .error .badDirective

end Flowscript.Yaml
