/-
  Flowscript.Yaml.Quoted

  Quoted scalars.  Reading is one pass over the characters with a state that holds
  the gap between two words until it is known how the gap is folded.
-/
import Flowscript.Json.Reader
import Flowscript.Yaml.Place
import Flowscript.Yaml.Problem

namespace Flowscript.Yaml

/-- The character that a backslash and this one stand for. -/
def escaped? (c : Char) : Option Nat :=
  match c with
  | '0' => some 0x00
  | 'a' => some 0x07
  | 'b' => some 0x08
  | 't' => some 0x09
  | '\t' => some 0x09
  | 'n' => some 0x0A
  | 'v' => some 0x0B
  | 'f' => some 0x0C
  | 'r' => some 0x0D
  | 'e' => some 0x1B
  | ' ' => some 0x20
  | '"' => some 0x22
  | '\\' => some 0x5C
  | '/' => some 0x2F
  | 'N' => some 0x85
  | '_' => some 0xA0
  | 'L' => some 0x2028
  | 'P' => some 0x2029
  | _ => none

/-- How many hexadecimal digits follow an escape of this letter. -/
def codeLength? (c : Char) : Option Nat :=
  match c with
  | 'x' => some 2
  | 'u' => some 4
  | 'U' => some 8
  | _ => none

/-- Where reading of a quoted scalar stands: in its text, in a gap between words, after a
backslash, among the digits of an escape, in a gap after an escaped line break, or after a single
quote that may be the first of two. -/
inductive QuotedState where
  | text
  | gap (spaces breaks : List Char)
  | escape
  | code (left value : Nat)
  | joined (breaks : List Char)
  | closing
deriving DecidableEq, Repr, Inhabited

namespace QuotedState

/-- What is kept of a gap when a word follows it. -/
def kept : QuotedState → List Char
  | .gap spaces breaks => foldBreaks spaces breaks
  | .joined breaks => breaks
  | _ => []

/-- The state after a space or a tab. -/
def addSpace (c : Char) : QuotedState → QuotedState
  | .gap spaces [] => .gap (spaces ++ [c]) []
  | .gap spaces breaks => .gap spaces breaks
  | .joined breaks => .joined breaks
  | _ => .gap [c] []

/-- The state after a line break. -/
def addBreak (c : Char) : QuotedState → QuotedState
  | .gap spaces breaks => .gap spaces (breaks ++ [breakChar c])
  | .joined breaks => .joined (breaks ++ [breakChar c])
  | _ => .gap [] [breakChar c]

end QuotedState

/-- Characters in front of what is read next. -/
def prepend (s : List Char) (r : Except Problem (Scanned (List Nat))) :
    Except Problem (Scanned (List Nat)) :=
  r.map (Scanned.map (s.map Char.toNat ++ ·))

/-- The code points of a quoted scalar whose opening quote has been read. -/
def quotedCodes (double : Bool) (st : QuotedState) (p : Place) :
    List Char → Except Problem (Scanned (List Nat))
  | [] => match st with
    | .closing => .ok ⟨[], p, []⟩
    | _ => .error .unclosedQuote
  | c :: rest =>
    let p' := p.next c rest
    match st with
    | .closing =>
      if c = '\'' then prepend [c] (quotedCodes double .text p' rest) else .ok ⟨[], p, c :: rest⟩
    | .escape =>
      if isBreak c then
        if isHalfBreak c rest then quotedCodes double .escape p' rest
        else if atSeparator rest then .error .separatorInQuote
        else quotedCodes double (.joined []) p' rest
      else match escaped? c, codeLength? c with
        | some n, _ => (quotedCodes double .text p' rest).map (Scanned.map (n :: ·))
        | none, some left => quotedCodes double (.code left 0) p' rest
        | none, none => .error .badEscape
    | .code left value => match Json.hexValue? c with
      | none => .error .badEscape
      | some d =>
        let n := value * 16 + d
        if 1 < left then quotedCodes double (.code (left - 1) n) p' rest
        else if 0x10FFFF < n then .error .codeTooLarge
        else (quotedCodes double .text p' rest).map (Scanned.map (n :: ·))
    | st =>
      if isSpace c then quotedCodes double (st.addSpace c) p' rest
      else if isBreak c then
        if isHalfBreak c rest then quotedCodes double st p' rest
        else if atSeparator rest then .error .separatorInQuote
        else quotedCodes double (st.addBreak c) p' rest
      else if double && c = '"' then .ok ⟨st.kept.map Char.toNat, p', rest⟩
      else if double && c = '\\' then prepend st.kept (quotedCodes double .escape p' rest)
      else if !double && c = '\'' then prepend st.kept (quotedCodes double .closing p' rest)
      else prepend (st.kept ++ [c]) (quotedCodes double .text p' rest)

/-- A quoted scalar whose opening quote has been read. -/
def quoted (double : Bool) (p : Place) (s : List Char) : Except Problem (Scanned String) :=
  (quotedCodes double .text p s).map (Scanned.map fun codes => String.ofList (Json.joinSurrogates codes))

end Flowscript.Yaml
