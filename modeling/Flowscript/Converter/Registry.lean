/-
  Flowscript.Converter.Registry

  Registries of converters by node type, with aliases.  A registry is a value: every
  change gives a new one.
-/
import Flowscript.Assoc
import Flowscript.Converter.Chain
import Flowscript.Converter.Memory
import Flowscript.Converter.Prompt
import Flowscript.Converter.Tool

namespace Flowscript

/-- Converters by type, and the types aliases stand for. -/
structure Registry where
  converters : List (String × Converter) := []
  aliases : List (String × String) := []
deriving Inhabited

namespace Registry

def empty : Registry := {}

/-- A converter of exactly this type is registered. -/
def hasType (r : Registry) (type : String) : Bool := r.converters.any (·.1 = type)

/-! ## Changes -/

/-- Adds aliases for a type, except those that are types or aliases already. -/
def addAliases (r : Registry) (type : String) (names : List String) : Registry :=
  names.foldl
    (fun r a =>
      if r.hasType a || (Assoc.get? r.aliases a).isSome then r
      else { r with aliases := r.aliases ++ [(a, type)] })
    r

/-- Adds a converter under its type and aliases. -/
def add (r : Registry) (c : Converter) : Except Refusal Registry :=
  if c.nodeType = "" then .error (.untypedConverter c.title)
  else if r.hasType c.nodeType then .error (.alreadyRegistered c.nodeType)
  else
    .ok ({ r with converters := r.converters ++ [(c.nodeType, c)] }.addAliases c.nodeType c.aliases)

/-- Makes a name stand for a registered type. -/
def addAlias (r : Registry) (name target : String) : Except Refusal Registry :=
  if !r.hasType target then .error (.unregisteredTarget target)
  else if r.hasType name then .error (.aliasCollision name)
  else .ok { r with aliases := Assoc.put name target r.aliases }

/-- Takes a type and its aliases out; tells whether it was registered. -/
def remove (r : Registry) (type : String) : Registry × Bool :=
  if r.hasType type then
    ({ converters := r.converters.filter (·.1 ≠ type)
       aliases := r.aliases.filter (·.2 ≠ type) }, true)
  else (r, false)

/-! ## Lookup -/

/-- The converter of a type or alias. -/
def get? (r : Registry) (type : String) : Option Converter :=
  match Assoc.get? r.converters type with
  | some c => some c
  | none => ((Assoc.get? r.aliases type).filter (· ≠ "")).bind (Assoc.get? r.converters)

/-- The registered type a type or alias stands for. -/
def resolvedType? (r : Registry) (type : String) : Option String :=
  if r.hasType type then some type else (Assoc.get? r.aliases type).filter r.hasType

def has (r : Registry) (type : String) : Bool := (r.get? type).isSome

/-- The registered types, sorted. -/
def types (r : Registry) : List String := Text.sort (r.converters.map (·.1))

/-- The aliases and what they stand for, sorted. -/
def sortedAliases (r : Registry) : List (String × String) :=
  r.aliases.mergeSort fun a b => Text.le a.1 b.1

/-- The converters of a category, sorted by type. -/
def ofCategory (r : Registry) (category : String) : List Converter :=
  (r.types.filterMap (Assoc.get? r.converters)).filter (·.category = category)

/-! ## Questions about nodes -/

/-- The packages the nodes' converters need, sorted. -/
def dependencies (r : Registry) (nodes : List Node) : List String :=
  Text.sort (Text.distinct (nodes.flatMap fun n => match r.get? n.type with
    | some c => c.dependencies
    | none => []))

/-- The types of nodes that have a converter, sorted. -/
def supported (r : Registry) (nodes : List Node) : List String :=
  Text.sort (Text.distinct ((nodes.map (·.type)).filter r.has))

/-- The types of nodes that have no converter, sorted. -/
def unsupported (r : Registry) (nodes : List Node) : List String :=
  Text.sort (Text.distinct ((nodes.map (·.type)).filter fun t => !r.has t))

/-- How many converters each category has, sorted by category. -/
def categories (r : Registry) : List (String × Nat) :=
  let names := r.converters.map fun e => if e.2.category ≠ "" then e.2.category else "uncategorized"
  ((Text.distinct names).map fun c => (c, names.count c)).mergeSort fun a b => Text.le a.1 b.1

/-- The types of deprecated converters, sorted. -/
def deprecatedTypes (r : Registry) : List String :=
  Text.sort ((r.converters.filter (·.2.deprecated)).map (·.1))

/-! ## Built-in converters -/

/-- The converters every program has. -/
def standardConverters : List Converter :=
  Converter.models.map (·.converter) ++
    [Converter.promptTemplate, Converter.chatPromptTemplate, Converter.llmChain,
      Converter.conversationChain, Converter.bufferMemory, Converter.bufferWindowMemory,
      Converter.calculator, Converter.serpAPI]

/-- Adds converters one after another; one that is refused is left out. -/
def addAll (r : Registry) (cs : List Converter) : Registry :=
  cs.foldl
    (fun r c => match r.add c with
      | .ok r => r
      | .error _ => r)
    r

/-- The registry of the built-in converters. -/
def standard : Registry := empty.addAll standardConverters

end Registry

end Flowscript
