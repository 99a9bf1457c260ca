/-
  Flowscript.Project.Interface

  The interfaces a generated program declares: one for each object among the
  parameters of its nodes, then those every program has.  No two of them have the
  same name.  They cannot be written if one of them has an item without a type, or a key
  or a parameter's name has no text.
-/
import Flowscript.Script.Literal
import Flowscript.Script.Shape
import Flowscript.Workflow.Graph

namespace Flowscript

/-- A field of an interface. -/
structure InterfaceField where
  name : String
  optional : Bool
  type : String
deriving DecidableEq, Repr, Inhabited

/-- An interface of a generated program; `obstacle?` keeps it from being written. -/
structure Interface where
  name : String
  fields : List InterfaceField
  obstacle? : Option Script.Obstacle := none
deriving DecidableEq, Repr, Inhabited

namespace Interface

/-- The interfaces of every program. -/
def fixed : List Interface := [
  { name := "AppConfig"
    fields := [
      ⟨"app", false, "\x7b name: string; version: string \x7d"⟩,
      ⟨"llm", true, "\x7b modelName: string; temperature: number; maxTokens?: number \x7d"⟩,
      ⟨"memory", true, "\x7b type: string; memoryKey: string \x7d"⟩] },
  { name := "ChatMessage"
    fields := [⟨"role", false, "'system' | 'human' | 'ai'"⟩, ⟨"content", false, "string"⟩] },
  { name := "ProcessingResult"
    fields := [⟨"output", false, "string"⟩, ⟨"metadata", true, "Record<string, unknown>"⟩] }]

/-- The names of the interfaces of every program. -/
def fixedNames : List String := fixed.map (·.name)

/-- The field of an object's entry. -/
def fieldOf (entry : Scalar × Value) : InterfaceField :=
  { name := String.ofList (Script.key entry.1.display.toList)
    optional := entry.2.isNull
    type := (Script.Shape.ofValue entry.2).text }

/-- What keeps the field of an object's entry from being written: its key, or else its value. -/
def obstacleOf? (entry : Scalar × Value) : Option Script.Obstacle :=
  if entry.1.isLongInteger then some .longInteger else Script.Shape.obstacle? entry.2

/-- What the interface of a parameter is named after. -/
def labelOf (n : Node) (p : Parameter) : String :=
  (if n.varName ≠ "" then n.varName else n.caption) ++ " " ++ p.name.display

/-- The name of the interface of a parameter. -/
def nameOf (n : Node) (p : Parameter) : String :=
  String.ofList (Naming.pascalCase (labelOf n p).toList)

/-- The interface of a parameter. -/
def ofParameter (n : Node) (p : Parameter) : Interface :=
  { name := nameOf n p
    fields := p.value.entries.map fieldOf
    obstacle? := p.value.entries.findSome? obstacleOf? }

/-- Those with a name of their own: neither empty, nor taken, nor that of an earlier one. -/
def keepNamed (taken : List String) : List Interface → List Interface
  | [] => []
  | i :: rest =>
    if i.name = "" || i.name ∈ taken then keepNamed taken rest
    else i :: keepNamed (i.name :: taken) rest

@[simp] theorem keepNamed_nil (taken : List String) : keepNamed taken [] = [] := rfl

theorem mem_of_mem_keepNamed {taken : List String} {is : List Interface} {i : Interface}
    (h : i ∈ keepNamed taken is) : i ∈ is := by
  induction is generalizing taken with
  | nil => simp at h
  | cons j rest ih =>
    simp only [keepNamed] at h
    split at h
    · exact List.mem_cons_of_mem _ (ih h)
    · rcases List.mem_cons.1 h with rfl | h
      · exact List.mem_cons_self
      · exact List.mem_cons_of_mem _ (ih h)

end Interface

namespace Graph

/-- The parameters of a graph whose values are objects with entries, with their nodes. -/
def objectParameters (g : Graph) : List (Node × Parameter) :=
  g.nodes.flatMap fun n =>
    (n.parameters.map fun p => (n, p.2)).filter fun p => !p.2.value.entries.isEmpty

/-- The object parameters up to the first one whose name is too long to be written. -/
def namedObjects (g : Graph) : List (Node × Parameter) :=
  g.objectParameters.takeWhile fun p => !p.2.name.isLongInteger

/-- The interfaces of a graph's program. -/
def interfaces (g : Graph) : List Interface :=
  Interface.keepNamed Interface.fixedNames
    (g.namedObjects.map fun p => Interface.ofParameter p.1 p.2) ++ Interface.fixed

/-- What keeps the interfaces of a graph's program from being written. -/
def untyped? (g : Graph) : Option Script.Obstacle :=
  (g.interfaces.findSome? (·.obstacle?)).or
    (if g.objectParameters.any (·.2.name.isLongInteger) then some .longInteger else none)

theorem exists_of_mem_objectParameters {g : Graph} {p : Node × Parameter}
    (h : p ∈ g.objectParameters) : p.1 ∈ g.nodes ∧ ∃ k, (k, p.2) ∈ p.1.parameters := by
  obtain ⟨n, hn, hp⟩ := List.mem_flatMap.mp h
  obtain ⟨e, he, rfl⟩ := List.mem_map.mp (List.mem_filter.mp hp).1
  exact ⟨hn, e.1, he⟩

/-- An interface is made from an object parameter, or is a fixed one. -/
theorem cases_of_mem_interfaces {g : Graph} {i : Interface} (h : i ∈ g.interfaces) :
    (∃ p ∈ g.objectParameters, i = Interface.ofParameter p.1 p.2) ∨ i ∈ Interface.fixed := by
  rcases List.mem_append.mp h with h | h
  · obtain ⟨p, hp, rfl⟩ := List.mem_map.mp (Interface.mem_of_mem_keepNamed h)
    exact .inl ⟨p, (List.takeWhile_sublist _).mem hp, rfl⟩
  · exact .inr h

/-- Interfaces that never end have an entry without a type in an object parameter. -/
theorem exists_endless {g : Graph} (h : g.untyped? = some .endless) :
    ∃ p ∈ g.objectParameters, ∃ e ∈ p.2.value.entries,
      Script.Shape.obstacle? e.2 = some .endless := by
  rcases Option.or_eq_some_iff.mp h with h | ⟨-, h⟩
  · obtain ⟨i, hi, hobstacle⟩ := List.exists_of_findSome?_eq_some h
    rcases cases_of_mem_interfaces hi with ⟨p, hp, rfl⟩ | hi
    · obtain ⟨e, he, hentry⟩ := List.exists_of_findSome?_eq_some hobstacle
      unfold Interface.obstacleOf? at hentry
      split at hentry
      · cases hentry
      · exact ⟨p, hp, e, he, hentry⟩
    · simp only [Interface.fixed, List.mem_cons, List.not_mem_nil, or_false] at hi
      rcases hi with rfl | rfl | rfl <;> cases hobstacle
  · split at h <;> cases h

end Graph

end Flowscript
