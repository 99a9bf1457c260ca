/-
  Flowscript.Naming.Identifier

  Identifiers of generated code: which texts are identifiers, how one is made from a
  label, and which ones a generated module may not take.
-/
import Flowscript.Naming.Words
import Flowscript.Text.LowerCase
import Flowscript.Text.Blank

namespace Flowscript.Naming

/-! ## Shape -/

/-- A character that starts an identifier. -/
def isIdentifierStart (c : Char) : Bool := c.isAlpha || c = '_' || c = '$'

/-- A character that continues an identifier. -/
def isIdentifierPart (c : Char) : Bool := c.isAlphanum || c = '_' || c = '$'

/-- An ASCII identifier. -/
def isIdentifier : List Char → Bool
  | [] => false
  | c :: rest => isIdentifierStart c && rest.all isIdentifierPart

/-! ## Identifiers from labels -/

/-- A lower-case identifier made from a label: its runs of letters and digits with underscores
between them, never empty and never starting with a digit. -/
def identifierChars (label : List Char) : List Char :=
  match Text.joinWith ['_'] (alnumRuns (Text.lower label)) with
  | [] => "node".toList
  | c :: rest => if c.isDigit then 'n' :: '_' :: c :: rest else c :: rest

/-- A lower-case identifier made from a label. -/
def identifier (label : String) : String := String.ofList (identifierChars label.toList)

/-- Names the generated module itself binds or uses. -/
def moduleNames : List String := [
  "main", "config", "environment", "result", "input", "options", "output",
  "error", "langfuse", "langfuseconfig", "trace", "totext", "process",
  "module", "require", "exports", "console"]

/-- Reserved words of the generated language. -/
def keywords : List String := [
  "break", "case", "catch", "class", "const", "continue", "debugger",
  "default", "delete", "do", "else", "enum", "export", "extends", "false",
  "finally", "for", "function", "if", "import", "in", "instanceof", "new",
  "null", "return", "super", "switch", "this", "throw", "true", "try",
  "typeof", "var", "void", "while", "with", "yield", "let", "static",
  "implements", "interface", "package", "private", "protected", "public",
  "await", "async", "arguments", "eval", "undefined", "nan", "infinity",
  "as", "any", "boolean", "number", "string", "symbol", "type", "declare",
  "namespace", "readonly", "unknown", "never", "object", "bigint"]

/-- Names that no node's variable may have. -/
def forbiddenNames : List String := moduleNames ++ keywords

/-! ## Categories -/

/-- Category labels of exported documents and the tags they stand for. -/
def categoryTags : List (String × String) := [
  ("chat models", "llm"),
  ("llms", "llm"),
  ("memory", "memory"),
  ("tools", "tool"),
  ("chains", "chain"),
  ("prompts", "prompt"),
  ("agents", "agent"),
  ("embeddings", "embeddings"),
  ("vector stores", "vectorstore"),
  ("document loaders", "document_loader"),
  ("text splitters", "text_splitter"),
  ("output parsers", "output_parser"),
  ("retrievers", "retriever"),
  ("cache", "cache")]

/-- The tag of a category label: trimmed, in lower case, looked up, or with underscores for
spaces. -/
def categoryTag (label : String) : String :=
  let key := Text.lower (Text.trim label.toList)
  match categoryTags.lookup (String.ofList key) with
  | some tag => tag
  | none => String.ofList (Text.replaceChar ' ' ['_'] key)

/-! ## Layout of text -/

/-- Every line that is not blank, moved right by `width` spaces. -/
def indent (width : Int) (s : List Char) : List Char :=
  Text.joinWith ['\n'] <| (Text.splitOn '\n' s).map fun line =>
    if Text.isBlankText line then line else Text.spaces width ++ line

/-- A text on one line that cannot end a block comment. -/
def commentText (s : List Char) : List Char :=
  Text.replace ['*', '/'] ['*', '\\', '/'] (Text.squeeze s)

end Flowscript.Naming
