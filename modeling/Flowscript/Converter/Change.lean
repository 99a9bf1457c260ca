/-
  Flowscript.Converter.Change

  Registries that are changed in place, one write after another, and the calls that
  change them.  A change that is refused on its way takes nothing back, so it leaves a
  registry as it was only if it refuses before its first write.
-/
import Flowscript.Converter.Registry

namespace Flowscript

/-- A change of a registry in place, which ends with an answer or with a refusal. -/
abbrev RegistryChange (α : Type) := EStateM Refusal Registry α

namespace RegistryChange

/-- Writes an alias for a type, unless the name is a type or an alias already. -/
def offer (type name : String) : RegistryChange Unit := do
  let r ← get
  if r.hasType name || (Assoc.get? r.aliases name).isSome then pure ()
  else set { r with aliases := Assoc.put name type r.aliases }

/-- Writes a converter under its type, then its aliases one by one. -/
def add (c : Converter) : RegistryChange Unit := do
  let r ← get
  if c.nodeType = "" then throw (.untypedConverter c.title)
  else if r.hasType c.nodeType then throw (.alreadyRegistered c.nodeType)
  else
    set { r with converters := Assoc.put c.nodeType c r.converters }
    forM c.aliases (offer c.nodeType)

/-- Makes a name stand for a registered type. -/
def addAlias (name target : String) : RegistryChange Unit := do
  let r ← get
  if !r.hasType target then throw (.unregisteredTarget target)
  else if r.hasType name then throw (.aliasCollision name)
  else set { r with aliases := Assoc.put name target r.aliases }

/-- Takes a type out, then the aliases that stand for it; tells whether it was registered. -/
def remove (type : String) : RegistryChange Bool := do
  let r ← get
  if r.hasType type then
    modify fun r => { r with converters := r.converters.filter (·.1 ≠ type) }
    modify fun r => { r with aliases := r.aliases.filter (·.2 ≠ type) }
    pure true
  else pure false

end RegistryChange

/-! ## Calls -/

/-- A call that changes a registry. -/
inductive RegistryCall where
  | add (c : Converter)
  | addAlias (name target : String)
  | remove (type : String)

/-- The change a call makes. -/
def RegistryCall.change : RegistryCall → RegistryChange Unit
  | .add c => RegistryChange.add c
  | .addAlias name target => RegistryChange.addAlias name target
  | .remove type => do
    let _ ← RegistryChange.remove type
    pure ()

namespace Registry

/-- The registry that a call leaves behind, whether or not it was refused. -/
def afterCall (r : Registry) (k : RegistryCall) : Registry :=
  match k.change.run r with
  | .ok _ r' => r'
  | .error _ r' => r'

/-- The registry that calls leave behind, one after another. -/
def after (r : Registry) (ks : List RegistryCall) : Registry := ks.foldl afterCall r

/-- Some calls lead from the empty registry to this one. -/
def Reachable (r : Registry) : Prop := ∃ ks, empty.after ks = r

end Registry

end Flowscript
