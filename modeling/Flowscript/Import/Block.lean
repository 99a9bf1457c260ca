/-
  Flowscript.Import.Block

  One block of import statements in either module system: one statement per source
  where possible, sources in groups with a blank line between them, names sorted,
  and lines that are no imports at the end.
-/
import Flowscript.Import.Spec
import Flowscript.Script.Literal
import Flowscript.Settings.Context

namespace Flowscript.Import

/-- Lists of names longer than this have one name per line. -/
def maxInlineWidth : Nat := 60

/-- The key names are sorted by: in lower case, without the mark of a type, then as they are. -/
def sortKey (name : List Char) : String × String :=
  let bare := (Text.after? "type ".toList name).getD name
  (String.ofList (Text.lower bare), String.ofList name)

/-- The order of names. -/
def nameLe (a b : List Char) : Bool :=
  let (x, x') := sortKey a
  let (y, y') := sortKey b
  if x = y then Text.le x' y' else Text.le x y

/-- The names between braces, on one line or on lines of their own. -/
def braces (items : List (List Char)) : List Char :=
  let joined := Text.joinWith [',', ' '] items
  if maxInlineWidth < joined.length then
    '{' :: '\n' :: Text.joinWith [',', '\n'] (items.map fun i => ' ' :: ' ' :: i) ++ ['\n', '}']
  else '{' :: ' ' :: joined ++ [' ', '}']

/-- A renamed name, `a as b`, in the words of a binding pattern, `a: b`. -/
def bindingItem (item : List Char) : List Char := Text.replace " as ".toList [':', ' '] item

/-- The statements of a source with import declarations. -/
def declarations (s : Spec) (source : List Char) (named : List (List Char)) : List (List Char) :=
  let keyword := if s.isType then "import type ".toList else "import ".toList
  let statement (what : List Char) := keyword ++ what ++ " from ".toList ++ source ++ [';']
  let list := if named.isEmpty then [] else [braces named]
  let firsts := match s.defaults, list with
    | [], [] => []
    | [], list => [statement (Text.joinWith [',', ' '] list)]
    | d :: ds, list => statement (Text.joinWith [',', ' '] (d :: list)) :: ds.map statement
  firsts ++ s.namespaces.map (fun n => statement ("* as ".toList ++ n)) ++
    if s.sideEffect && !s.bindsNames then ["import ".toList ++ source ++ [';']] else []

/-- The statements of a source with calls of `require`. -/
def calls (s : Spec) (source : List Char) (named : List (List Char)) : List (List Char) :=
  let call := "require(".toList ++ source ++ [')', ';']
  let constant (what : List Char) := "const ".toList ++ what ++ " = ".toList ++ call
  (s.defaults ++ s.namespaces).map constant ++
    (if named.isEmpty then [] else [constant (braces (named.map bindingItem))]) ++
    if s.sideEffect && !s.bindsNames then [call] else []

/-- The statements of a source; types are always declared. -/
def render (format : ModuleFormat) (q : Char) (s : Spec) : List (List Char) :=
  let source := Script.quote q s.source
  let named := s.named.mergeSort nameLe
  if s.isType || format = .esm then declarations s source named else calls s source named

/-- The order of sources: by group, then by name. -/
def specLe (a b : Spec) : Bool :=
  if a.group = b.group then Text.le (String.ofList a.source) (String.ofList b.source)
  else a.group < b.group

/-- The block for what was parsed. -/
def block (format : ModuleFormat) (q : Char) (p : Parsed) : List Char :=
  let specs := p.specs.mergeSort specLe
  let groups := [0, 1, 2, 3].map fun n => (specs.filter (·.group = n)).flatMap (render format q)
  let parts := (groups ++ [p.unparsed.eraseDups]).filter fun ls => !ls.isEmpty
  Text.joinWith ['\n', '\n'] (parts.map (Text.joinWith ['\n']))

/-- All imports of the given texts as one block. -/
def blockOf (format : ModuleFormat) (q : Char) (statements : List (List Char)) : List Char :=
  block format q (parse statements)

end Flowscript.Import
