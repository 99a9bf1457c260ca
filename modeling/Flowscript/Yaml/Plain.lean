/-
  Flowscript.Yaml.Plain

  Plain scalars: words without quotes, on one line or on several, of which the later
  ones are indented.
-/
import Flowscript.Yaml.Place

namespace Flowscript.Yaml

/-- A bracket or comma of a flow collection. -/
def isFlowMark (c : Char) : Bool := c = ',' || c = '[' || c = ']' || c = '{' || c = '}'

/-- A character that no plain scalar contains at this place: a colon with a gap after it, or a
mark of a flow collection inside one. -/
def stopsPlain (flow : Bool) (c : Char) (rest : List Char) : Bool :=
  c = ':' && (gapFollows rest || (flow && rest.head?.any isFlowMark)) ||
    flow && (isFlowMark c || c = '?')

/-- Where reading of a plain scalar stands: in a word, or in a gap between words. -/
inductive PlainState where
  | word
  | gap (spaces breaks : List Char)
deriving DecidableEq, Repr, Inhabited

/-- The state after a line break. -/
def PlainState.addBreak (c : Char) : PlainState → PlainState
  | .word => .gap [] [breakChar c]
  | .gap spaces breaks => .gap spaces (breaks ++ [breakChar c])

/-- The state after a space. -/
def PlainState.addSpace : PlainState → PlainState
  | .word => .gap [' '] []
  | .gap spaces [] => .gap (spaces ++ [' ']) []
  | .gap spaces breaks => .gap spaces breaks

/-- The gap has a line break. -/
def PlainState.broke : PlainState → Bool
  | .word => false
  | .gap _ breaks => !breaks.isEmpty

/-- The scalar ends before a character: at a tab, at a colon or mark that ends it, and after a gap
at a comment or at a line that is not indented enough. -/
def PlainState.endsAt (st : PlainState) (flow : Bool) (indent : Int) (p : Place) (c : Char)
    (rest : List Char) : Bool :=
  c = '\t' || stopsPlain flow c rest ||
    match st with
    | .word => false
    | .gap .. => c = '#' || (!flow && (p.column : Int) < indent)

/-- The characters of a plain scalar, and whether a line break was read after its last word. -/
def plain (flow : Bool) (indent : Int) (st : PlainState) (p : Place) :
    List Char → Scanned (List Char × Bool)
  | [] => ⟨([], st.broke), p, []⟩
  | c :: rest =>
    let p' := p.next c rest
    if c = ' ' then plain flow indent st.addSpace p' rest
    else if isBreak c then
      if isHalfBreak c rest then plain flow indent st p' rest
      else if atSeparator rest then ⟨([], true), p', rest⟩
      else plain flow indent (st.addBreak c) p' rest
    else if st.endsAt flow indent p c rest then ⟨([], st.broke), p, c :: rest⟩
    else
      let before := match st with
        | .word => []
        | .gap spaces breaks => foldBreaks spaces breaks
      (plain flow indent .word p' rest).map fun (text, broke) => (before ++ c :: text, broke)

end Flowscript.Yaml
