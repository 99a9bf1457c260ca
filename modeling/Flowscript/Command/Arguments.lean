/-
  Flowscript.Command.Arguments

  Options and arguments of a command line.  An option is a flag or takes a value;
  short flags can be written together, and two hyphens end the options.
-/
import Flowscript.Text.Basic

namespace Flowscript.Command

/-- An option: its name, the forms it is written in, and whether it takes a value. -/
structure OptionSpec where
  name : String
  forms : List String
  takesValue : Bool := false
deriving DecidableEq, Repr, Inhabited

/-- An option that was given; a flag has no value. -/
structure Given where
  name : String
  value : Option String := none
deriving DecidableEq, Repr, Inhabited

/-- The options and arguments of a command line. -/
structure Arguments where
  options : List Given := []
  positional : List String := []
deriving DecidableEq, Repr, Inhabited

namespace Arguments

/-- The option was given. -/
def has (a : Arguments) (name : String) : Bool := a.options.any (·.name = name)

/-- The value of an option, of which the last one counts. -/
def value? (a : Arguments) (name : String) : Option String :=
  ((a.options.reverse.find? (·.name = name)).bind (·.value))

/-- The first of some options that was given. -/
def firstOf? (a : Arguments) (names : List String) : Option String :=
  (a.options.find? (·.name ∈ names)).map (·.name)

end Arguments

/-- What a word of a command line is: options that are complete, options the last of which takes
the next word as its value, the end of the options, or an argument. -/
inductive Word where
  | options (given : List Given)
  | awaiting (given : List Given) (name : String)
  | endOfOptions
  | argument
  | malformed
deriving DecidableEq, Repr, Inhabited

/-- The option with a form. -/
def optionOf? (specs : List OptionSpec) (form : String) : Option OptionSpec :=
  specs.find? (form ∈ ·.forms)

/-- Short options written together; the rest of the word is the value of one that takes one. -/
def shortOptions (specs : List OptionSpec) (given : List Given) : List Char → Word
  | [] => .options given
  | c :: rest => match optionOf? specs (String.ofList ['-', c]) with
    | none => .malformed
    | some o =>
      if !o.takesValue then shortOptions specs (given ++ [{ name := o.name }]) rest
      else if rest.isEmpty then .awaiting given o.name
      else .options (given ++ [{ name := o.name, value := some (String.ofList rest) }])

/-- A long option, with its value behind an equals sign or in the next word. -/
def longOption (specs : List OptionSpec) (word : List Char) : Word :=
  let (form, value?) := Text.cutAt '=' word
  match optionOf? specs (String.ofList form), value? with
  | none, _ => .malformed
  | some o, some v =>
    if o.takesValue then .options [{ name := o.name, value := some (String.ofList v) }] else .malformed
  | some o, none => if o.takesValue then .awaiting [] o.name else .options [{ name := o.name }]

/-- What a word is. -/
def wordOf (specs : List OptionSpec) (word : String) : Word :=
  match word.toList with
  | ['-', '-'] => .endOfOptions
  | '-' :: '-' :: rest => longOption specs ('-' :: '-' :: rest)
  | '-' :: c :: rest => shortOptions specs [] (c :: rest)
  | _ => .argument

/-- Reads a command line; nothing if it is malformed.  Without `mixed` the first argument ends the
options. -/
def parse? (specs : List OptionSpec) (mixed : Bool) (done : Arguments) : List String → Option Arguments
  | [] => some done
  | w :: rest => match wordOf specs w with
    | .options given => parse? specs mixed { done with options := done.options ++ given } rest
    | .awaiting given name => match rest with
      | [] => none
      | v :: rest =>
        parse? specs mixed
          { done with options := done.options ++ given ++ [{ name, value := some v }] } rest
    | .endOfOptions => some { done with positional := done.positional ++ rest }
    | .argument =>
      if mixed then parse? specs mixed { done with positional := done.positional ++ [w] } rest
      else some { done with positional := done.positional ++ w :: rest }
    | .malformed => none

end Flowscript.Command
