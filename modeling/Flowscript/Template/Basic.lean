/-
  Flowscript.Template.Basic

  Templates: text with places for values, conditions and repetitions.  A name that is
  not bound, or a field that is not there, is an error where its value is used.
-/
import Flowscript.Script.Literal
import Flowscript.Workflow.Refusal

namespace Flowscript.Template

/-! ## Templates -/

/-- What can be done with a value before it is written. -/
inductive Filter where
  | snakeCase
  | camelCase
  | pascalCase
  | kebabCase
  | envName
  | indent
  | quote
  | value
  | object
  | length
deriving DecidableEq, Repr, Inhabited

/-- A value to be written or tested. -/
inductive Expr where
  | var (name : String)
  | field (of : Expr) (name : String)
  | filter (of : Expr) (f : Filter)
  | orElse (of : Expr) (default : String)
  | choose (test : Expr) (yes no : String)
deriving Repr, Inhabited

/-- A condition. -/
inductive Test where
  | holds (e : Expr)
  | equals (e : Expr) (text : String)
  | notLast
deriving Repr, Inhabited

/-- A part of a template. -/
inductive Part where
  | text (s : String)
  | put (e : Expr)
  | when (test : Test) (yes no : List Part)
  | each (name : String) (items : Expr) (body : List Part)
  | eachEntry (key value : String) (table : Expr) (body : List Part)
deriving Repr, Inhabited

/-! ## Scopes -/

/-- The values of names, the quote of literals, and whether the innermost repetition is at its
last item. -/
structure Scope where
  vars : List (String × Value)
  quote : Char := '\''
  last : Bool := true
deriving Repr, Inhabited

/-- Binds a name, which hides an earlier value. -/
def Scope.bind (s : Scope) (name : String) (v : Value) : Scope :=
  { s with vars := (name, v) :: s.vars }

/-- Why there is no value: an unbound name, or a field that a value lacks. -/
inductive Missing where
  | unbound (name : String)
  | noField (kind name : String)
deriving DecidableEq, Repr

def Missing.message : Missing → String
  | .unbound name => "'" ++ name ++ "' is undefined"
  | .noField kind name => "'" ++ kind ++ "' has no attribute '" ++ name ++ "'"

/-- Why a template cannot be rendered: a value is missing where it is used, or does not fit. -/
inductive RenderFault where
  | missing (m : Missing)
  | unfit (f : Fault)
deriving Repr, Inhabited

/-! ## Values -/

/-- The name of a value's kind in messages about its fields. -/
def objectKind (v : Value) : String :=
  match v with
  | .scalar .null => "None"
  | v => v.kindName ++ " object"

/-- The field of a value. -/
def fieldOf (v : Value) (name : String) : Except Missing Value :=
  match v.opened with
  | .map es => match Entries.field? es name with
    | some x => .ok x
    | none => .error (.noField (objectKind v) name)
  | _ => .error (.noField (objectKind v) name)

/-- A case filter takes texts only. -/
def onText (f : List Char → List Char) : Except Missing Value → Except RenderFault Value
  | .ok (.scalar (.str s)) => .ok (.str (String.ofList (f s.toList)))
  | .ok v => .error (.unfit (.unfit (.notText v.kindName)))
  | .error _ => .error (.unfit (.unfit .shape))

/-- The value behind an operand that must be there. -/
def need : Except Missing Value → Except RenderFault Value
  | .ok v => .ok v
  | .error m => .error (.missing m)

/-- How many items a value has. -/
def lengthOf (v : Value) : Except RenderFault Value :=
  match v.opened with
  | .list xs => .ok (.int xs.length)
  | .map es => .ok (.int es.length)
  | .set ms => .ok (.int ms.length)
  | .pair .. => .ok (.int 2)
  | .scalar (.str s) => .ok (.int s.length)
  | .scalar (.bytes b) => .ok (.int b.length)
  | _ => .error (.unfit (.unfit .shape))

/-- The text of a value that is written. -/
def textOf (v : Value) : Except RenderFault String := v.text.mapError .unfit

/-- A literal that is written; there is none if an integer is too long. -/
def literal : Option (List Char) → Except RenderFault Value
  | some text => .ok (.str (String.ofList text))
  | none => .error (.unfit .longInteger)

/-- Applies a filter. -/
def Filter.apply (f : Filter) (q : Char) (v : Except Missing Value) : Except RenderFault Value :=
  match f with
  | .snakeCase => onText Naming.snakeCase v
  | .camelCase => onText Naming.camelCase v
  | .pascalCase => onText Naming.pascalCase v
  | .kebabCase => onText Naming.kebabCase v
  | .envName => onText Naming.envName v
  | .indent => do match ← need v with
    | .scalar (.str s) => .ok (.str (String.ofList (Naming.indent 2 s.toList)))
    | _ => .error (.unfit .noFields)
  | .quote => do
    let v ← need v
    let text ← textOf v
    pure (.str (Script.quoteString q text))
  | .value => do
    let v ← need v
    literal (Script.value? q v)
  | .object => do
    let v ← need v
    literal (Script.layout? q 2 0 v)
  | .length => do
    let v ← need v
    lengthOf v

/-- The value of an expression; a missing value is no error yet. -/
def Expr.eval (s : Scope) : Expr → Except RenderFault (Except Missing Value)
  | .var name => match s.vars.lookup name with
    | some v => .ok (.ok v)
    | none => .ok (.error (.unbound name))
  | .field e name => do
    let v ← e.eval s
    match v with
    | .ok v => pure (fieldOf v name)
    | .error m => .error (.missing m)
  | .filter e f => do
    let v ← e.eval s
    let r ← f.apply s.quote v
    pure (.ok r)
  | .orElse e default => do
    let v ← need (← e.eval s)
    pure (.ok (if v.isTruthy then v else .str default))
  | .choose test yes no => do
    let v ← need (← test.eval s)
    pure (.ok (.str (if v.isTruthy then yes else no)))

/-- The value of an expression that is used. -/
def Expr.value (s : Scope) (e : Expr) : Except RenderFault Value := do
  let v ← e.eval s
  need v

def Test.eval (s : Scope) : Test → Except RenderFault Bool
  | .holds e => do
    let v ← e.value s
    pure v.isTruthy
  | .equals e text => do
    match ← e.value s with
    | .scalar (.str t) => pure (t = text)
    | _ => pure false
  | .notLast => .ok !s.last

/-- The items a value lists when it is walked through. -/
def itemsOf (v : Value) : Except RenderFault (List Value) :=
  match v.opened with
  | .list xs => .ok xs
  | .map es => .ok (es.map fun e => .scalar e.1)
  | .set ms => .ok (ms.map .scalar)
  | .pair a b => .ok [a, b]
  | .scalar (.str s) => .ok (s.toList.map fun c => .str (String.singleton c))
  | .scalar (.bytes b) => .ok (b.map fun x => .int x.toNat)
  | _ => .error (.unfit (.unfit .shape))

/-- The entries of a table, sorted by their keys in lower case. -/
def sortedEntries (v : Value) : Except RenderFault (List (Scalar × Value)) :=
  match v.opened with
  | .map es =>
    let key (e : Scalar × Value) := Text.lowerString e.1.display
    .ok (es.mergeSort fun a b => Text.le (key a) (key b))
  | _ => .error (.unfit .noFields)

/-! ## Rendering -/

/-- Runs `f` on items in order and puts the results together; `f` learns which item is last. -/
def concatEach {α : Type} (f : Bool → α → Except RenderFault (List Char)) :
    List α → Except RenderFault (List Char)
  | [] => .ok []
  | x :: xs => do
    let first ← f xs.isEmpty x
    let rest ← concatEach f xs
    pure (first ++ rest)

mutual

/-- The text of a part. -/
def renderPart (s : Scope) : Part → Except RenderFault (List Char)
  | .text t => .ok t.toList
  | .put e => do
    let v ← e.value s
    let text ← textOf v
    pure text.toList
  | .when test yes no => do
    let b ← test.eval s
    if b then renderParts s yes else renderParts s no
  | .each name items body => do
    let v ← items.value s
    let xs ← itemsOf v
    concatEach (fun last x => renderParts { s.bind name x with last } body) xs
  | .eachEntry key value table body => do
    let v ← table.value s
    let es ← sortedEntries v
    concatEach (fun last e => renderParts { (s.bind key (.scalar e.1)).bind value e.2 with last } body) es

/-- The texts of parts put together. -/
def renderParts (s : Scope) : List Part → Except RenderFault (List Char)
  | [] => .ok []
  | p :: ps => do
    let first ← renderPart s p
    let rest ← renderParts s ps
    pure (first ++ rest)

end

end Flowscript.Template
