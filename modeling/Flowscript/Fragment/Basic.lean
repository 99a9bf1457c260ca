/-
  Flowscript.Fragment.Basic

  Fragments of generated code: the smallest pieces that are ordered, grouped by type
  and written to a file.
-/
import Flowscript.Text.Basic

namespace Flowscript

/-- The types of fragments, in the order in which they stand in a file. -/
inductive FragmentKind where
  | imports
  | declaration
  | initialization
  | execution
  | exports
deriving DecidableEq, Repr, Inhabited

namespace FragmentKind

def name : FragmentKind → String
  | .imports => "import"
  | .declaration => "declaration"
  | .initialization => "initialization"
  | .execution => "execution"
  | .exports => "export"

/-- All types, in file order. -/
def all : List FragmentKind := [.imports, .declaration, .initialization, .execution, .exports]

theorem mem_all (t : FragmentKind) : t ∈ all := by cases t <;> decide

/-- The type of a name. -/
def ofName? (name : String) : Option FragmentKind := all.find? (·.name = name)

end FragmentKind

/-- A piece of generated code. -/
structure Fragment where
  id : String
  type : FragmentKind
  content : String
  dependencies : List String := []
  language : String := "typescript"
  nodeId : Option String := none
  order : Int := 0
  category : String := ""
  isAsync : Bool := false
  exports : List String := []
  description : String := ""
deriving DecidableEq, Repr, Inhabited

/-- The names fragments export, each once, in the order of first occurrence. -/
def Fragment.exportedNames (fs : List Fragment) : List String := Text.distinct (fs.flatMap (·.exports))

end Flowscript
