/-
  Flowscript.Naming.Words

  The words of a name and the ways to write them together.  A word ends where a
  capital follows a small letter or a digit, before the last capital of a run of
  capitals that a small letter follows, and at every character that is not an ASCII
  letter or digit.
-/
import Flowscript.Text.Basic

namespace Flowscript.Naming

/-! ## Words -/

/-- A small letter or a digit. -/
def isSmall (c : Char) : Bool := c.isLower || c.isDigit

/-- Puts an underscore at every change of case that starts a word.  `inRun` tells that the
character before is a capital that opens or continues a run. -/
def markCase (inRun : Bool) : List Char → List Char
  | [] => []
  | [c] => [c]
  | c :: d :: rest =>
    if isSmall c then
      if d.isUpper then c :: '_' :: d :: markCase false rest else c :: markCase false (d :: rest)
    else if c.isUpper then
      if inRun && d.isLower then '_' :: c :: d :: markCase false rest
      else c :: markCase true (d :: rest)
    else c :: markCase false (d :: rest)

@[simp] theorem markCase_nil (b : Bool) : markCase b [] = [] := rfl

@[simp] theorem markCase_singleton (b : Bool) (c : Char) : markCase b [c] = [c] := rfl

/-- The maximal runs of ASCII letters and digits. -/
def alnumRuns (s : List Char) : List (List Char) :=
  match s with
  | [] => []
  | c :: rest =>
    if c.isAlphanum then
      match rest with
      | [] => [[c]]
      | d :: _ =>
        if d.isAlphanum then
          match alnumRuns rest with
          | [] => [[c]]
          | w :: ws => (c :: w) :: ws
        else [c] :: alnumRuns rest
    else alnumRuns rest

@[simp] theorem alnumRuns_nil : alnumRuns [] = [] := rfl

/-- The words of a name. -/
def words (s : List Char) : List (List Char) := alnumRuns (markCase false s)

/-! ## Cases -/

/-- ASCII letters in lower case. -/
def small (w : List Char) : List Char := w.map Char.toLower

/-- ASCII letters in upper case. -/
def big (w : List Char) : List Char := w.map Char.toUpper

/-- A capital and small letters after it. -/
def capitalize : List Char → List Char
  | [] => []
  | c :: rest => c.toUpper :: small rest

/-- `open_ai_key` -/
def snakeCase (s : List Char) : List Char := Text.joinWith ['_'] ((words s).map small)

/-- `open-ai-key` -/
def kebabCase (s : List Char) : List Char := Text.joinWith ['-'] ((words s).map small)

/-- `openAiKey` -/
def camelCase (s : List Char) : List Char :=
  match words s with
  | [] => []
  | w :: ws => small w ++ (ws.map capitalize).flatten

/-- `OpenAiKey` -/
def pascalCase (s : List Char) : List Char := ((words s).map capitalize).flatten

/-- `OPEN_AI_KEY`, the form of an environment variable. -/
def envName (s : List Char) : List Char := big (snakeCase s)

end Flowscript.Naming
