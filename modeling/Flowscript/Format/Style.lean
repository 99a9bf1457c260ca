/-
  Flowscript.Format.Style

  The choices a reader of generated code may have about its looks.
-/

namespace Flowscript

/-- Formatting options for generated code. -/
structure CodeStyle where
  indentSize : Nat := 2
  useSpaces : Bool := true
  semicolons : Bool := true
  singleQuotes : Bool := true
  trailingCommas : Bool := true
deriving DecidableEq, Repr, Inhabited

namespace CodeStyle

/-- One level of indentation. -/
def indent (s : CodeStyle) : List Char :=
  if s.useSpaces then List.replicate s.indentSize ' ' else ['\t']

/-- The quote of string literals. -/
def quote (s : CodeStyle) : Char := if s.singleQuotes then '\'' else '"'

end CodeStyle

end Flowscript
