/-
  Flowscript.Workflow.Document

  Graphs from document values.  Two forms of documents are understood: the plain
  form, where a node lists its parameters, and the exported form, where a node's
  details are under `data` with declared inputs and their values apart.  A value that
  contains itself is read like any other; only the search for references in a list
  that never ends has no result.
-/
import Flowscript.Workflow.Graph
import Flowscript.Workflow.Refusal

namespace Flowscript.Document

open Entries (field?)

/-! ## Layout positions -/

/-- A coordinate; what does not read as a number is at the origin. -/
def coordinate : Option Value → Except Fault Double
  | some (.scalar (.int i)) => match Double.ofInt? i with
    | some x => .ok x
    | none => .error .outOfRange
  | some (.scalar (.float x)) => .ok x
  | some (.scalar (.str s)) => .ok ((Double.read? s.toList).getD (.zero false))
  | some (.scalar (.bytes bs)) =>
    if bs.all (· < 128) then
      .ok ((Double.read? (bs.map fun b => Char.ofNat b.toNat)).getD (.zero false))
    else .ok (.zero false)
  | _ => .ok (.zero false)

/-- A position: a mapping with `x` and `y`, or a pair. -/
def position (v? : Option Value) : Except Fault (Double × Double) :=
  match v?.map Value.opened with
  | some (.map es) => do
    let x ← coordinate (field? es "x")
    let y ← coordinate (field? es "y")
    pure (x, y)
  | some (.list [a, b]) | some (.pair a b) => do
    let x ← coordinate (some a)
    let y ← coordinate (some b)
    pure (x, y)
  | _ => .ok (.zero false, .zero false)

/-! ## Fields -/

/-- The text of a value. -/
def text (v : Value) : Except Fault String :=
  match v.display? with
  | some s => .ok s
  | none => .error .malformed

@[simp] theorem text_str (s : String) : text (.str s) = .ok s := rfl

/-- The text of a field, or `default` if the field is not there. -/
def fieldText (es : Entries) (name default : String) : Except Fault String :=
  match field? es name with
  | some v => text v
  | none => .ok default

/-- The text of the first field that is there and not empty. -/
def firstText (candidates : List (Option Value)) : Except Fault String :=
  match candidates.findSome? (·.filter Value.isTruthy) with
  | some v => text v
  | none => .ok ""

/-- The value of a parameter; a set counts as its text, and so has to have one. -/
def parameterValue (v : Value) : Except Fault ParameterValue :=
  match v with
  | .set ms => (text (.set ms)).map .string
  | v => .ok (.ofValue v)

/-- A field that is there and not empty. -/
def flag (es : Entries) (name : String) : Bool :=
  match field? es name with
  | some v => v.isTruthy
  | none => false

/-! ## Plain form -/

/-- The keys of a parameter description. -/
def descriptionKeys : List String := ["name", "value", "type", "required", "description", "default"]

/-- The value of a description; without one its default counts. -/
def describedValue (es : Entries) : Value :=
  match field? es "value" with
  | some v => v
  | none => (field? es "default").getD .null

/-- A parameter from its description. -/
def described (name : String) (es : Entries) : Except Fault Parameter := do
  let value ← parameterValue (describedValue es)
  let type ← fieldText es "type" "string"
  let description ← fieldText es "description" ""
  pure
    { name := .str name
      value
      type
      required := flag es "required"
      description }

/-- A mapping is a description if it has a value and no key that descriptions lack. -/
def isDescription (es : Entries) : Bool :=
  (field? es "value").isSome && es.all fun e => match e.1 with
    | .str k => k ∈ descriptionKeys
    | _ => false

/-- Parameters from a list of descriptions, which starts at position `index`. -/
def listed (node : String) (ps : Parameters) (index : Nat) : List Value → Except Fault Parameters
  | [] => .ok ps
  | v :: rest => match v.opened with
    | .map es => match field? es "name" with
      | some n => do
        let p ← described (← text n) es
        listed node (ps.add p) (index + 1) rest
      | none => .error (.document (.parameterWithoutName index node))
    | _ => .error (.document (.parameterWithoutName index node))

/-- A parameter from an entry of a mapping. -/
def entryParameter (key : Scalar) (v : Value) : Except Fault Parameter := do
  let name ← text (.scalar key)
  match v.opened with
  | .map es =>
    if isDescription es then described name es else pure { name := .str name, value := .object es }
  | _ => do
    let value ← parameterValue v
    pure { name := .str name, value }

/-- The parameters of a node in plain form. -/
def plainParameters (node : String) (v? : Option Value) : Except Fault Parameters :=
  match v?.map Value.opened with
  | none | some .null => .ok []
  | some (.list items) => listed node [] 0 items
  | some (.map es) => es.foldlM (fun ps e => (entryParameter e.1 e.2).map ps.add) []
  | some _ => .error (.document (.parametersShape node))

/-! ## Exported form -/

/-- A text in double braces. -/
def isReferenceText (s : List Char) : Bool :=
  let t := Text.trim s
  Text.startsWith ['{', '{'] t && Text.endsWith ['}', '}'] t

mutual

/-- Whether a value is a reference to another node: a text in double braces, or a list of references
that is not empty.  There is no answer if the search comes back to a list it is inside of. -/
def isReference? : Value → Option Bool
  | .scalar (.str s) => some (isReferenceText s.toList)
  | .list [] => some false
  | .list (x :: xs) => do
    if ← isReference? x then areReferences? xs else some false
  | .knot _ body => isReference? body
  | .again _ => none
  | _ => some false

/-- Whether all of the values are references; the search ends at the first that is none. -/
def areReferences? : List Value → Option Bool
  | [] => some true
  | x :: xs => do
    if ← isReference? x then areReferences? xs else some false

end

/-- Whether a value is a reference to another node. -/
def isReference (v : Value) : Except Fault Bool :=
  match isReference? v with
  | some b => .ok b
  | none => .error .endless

/-- Null and the empty text are no values. -/
def isUnset (v : Value) : Bool := v.isNull || v.isEmptyText

/-- A value that is neither the empty text nor a reference, or null. -/
def settled (v : Value) : Except Fault Value := do
  if v.isEmptyText || (← isReference v) then pure .null else pure v

/-- The declarations a value lists when it is walked through. -/
def declarations : Option Value → Except Fault (List Value)
  | none => .ok []
  | some v =>
    if !v.isTruthy then .ok []
    else match v.opened with
      | .list xs => .ok xs
      | .map es => .ok (es.map fun e => .scalar e.1)
      | .set ms => .ok (ms.map .scalar)
      | .pair a b => .ok [a, b]
      | .scalar (.str s) => .ok (s.toList.map fun c => .str (String.singleton c))
      | .scalar (.bytes bs) => .ok (bs.map fun b => .int b.toNat)
      | _ => .error (.unfit .shape)

/-- The name a credential goes by: the first of its kinds, followed by `Key`. -/
def credentialName (names : Value) : Except Fault String :=
  match names.opened with
  | .list (n :: _) | .pair n _ => (text n).map (· ++ "Key")
  | .list [] => .error .absentItem
  | .map es => match Entries.get? es (.int 0) with
    | some v => (text v).map (· ++ "Key")
    | none => .error .absentKey
  | .scalar (.str s) => match s.toList with
    | c :: _ => .ok (String.singleton c ++ "Key")
    | [] => .error .absentItem
  | .scalar (.bytes (b :: _)) => .ok (Text.ofNat b.toNat ++ "Key")
  | _ => .error (.unfit .shape)

/-- The inputs of a node, as a mapping. -/
def inputEntries (data : Entries) : Except Fault Entries :=
  match ((field? data "inputs").filter Value.isTruthy).map Value.opened with
  | none => .ok []
  | some (.map es) => .ok es
  | some _ => .error .noFields

/-- The value given to an input; without one the default of its declaration counts. -/
def givenValue (inputs : Entries) (es : Entries) (name : Scalar) : Value :=
  let given := (inputs.get? name).getD .null
  if isUnset given then (field? es "default").getD .null else given

/-- A declared credential goes by the name of its kind, and has the value of the node's. -/
def declaredEntry (data es : Entries) (type : String) (name : Scalar) (value : Value) :
    Except Fault (Scalar × Value) :=
  if type = "credential" then
    match (field? es "credentialNames").filter Value.isTruthy with
    | none => .ok (name, (field? data "credential").getD value)
    | some names => (credentialName names).map fun kind =>
      (.str kind, (field? data "credential").getD value)
  else .ok (name, value)

/-- The description of a declaration, which is its label unless it has one of its own. -/
def caption (es : Entries) : Except Fault String :=
  match field? es "description" with
  | some d => text d
  | none => fieldText es "label" ""

/-- The parameter of one declaration; one without a name declares none. -/
def declared (data : Entries) (inputs : Except Fault Entries) (spec : Value) :
    Except Fault (Option Parameter) :=
  match spec.opened with
  | .map es => match (field? es "name").filter Value.isTruthy with
    | none => .ok none
    | some nameValue => do
      let type ← fieldText es "type" "string"
      let inputs ← inputs
      let name ← match nameValue with
        | .scalar s => .ok s
        | _ => .error (.unfit .shape)
      let (name, value) ← declaredEntry data es type name (givenValue inputs es name)
      let value ← parameterValue (← settled value)
      let description ← caption es
      pure (some
        { name
          value
          type
          required := !flag es "optional" && type ≠ "credential"
          description })
  | _ => .error .noFields

/-- The parameters of all declarations, in order. -/
def declaredAll (data : Entries) (inputs : Except Fault Entries) (ps : Parameters) :
    List Value → Except Fault Parameters
  | [] => .ok ps
  | spec :: rest => do
    let p? ← declared data inputs spec
    declaredAll data inputs (match p? with
      | some p => ps.add p
      | none => ps) rest

/-- Adds an input without a declaration, if it has a value of its own. -/
def addInput (ps : Parameters) (input : Scalar × Value) : Except Fault Parameters :=
  if ps.has input.1 || isUnset input.2 then .ok ps
  else do
    if ← isReference input.2 then pure ps
    else do
      let value ← parameterValue input.2
      pure (ps.add { name := input.1, value })

/-- The parameters of a node in exported form: the declared ones, then the other inputs. -/
def exportedParameters (data : Entries) : Except Fault Parameters := do
  let inputs := inputEntries data
  let specs ← declarations (field? data "inputParams")
  let ps ← declaredAll data inputs [] specs
  let inputs ← inputs
  inputs.foldlM addInput ps

/-! ## Nodes and connections -/

/-- The node at position `index` of the document. -/
def node (index : Nat) (raw : Value) : Except Fault Node :=
  match raw.opened with
  | .map es => match (field? es "data").map Value.opened with
    | some (.map data) => do
      let id ← firstText [field? es "id", field? data "id"]
      if id = "" then throw (.document (.nodeWithoutId index))
      let type ← firstText [field? data "name", field? data "type"]
      let label ← fieldText data "label" ""
      let category ← fieldText data "category" ""
      let parameters ← exportedParameters data
      let position ← position (field? es "position")
      pure { id, type, label, category := Naming.categoryTag category, parameters, position }
    | _ => do
      let id ← firstText [field? es "id"]
      if id = "" then throw (.document (.nodeWithoutId index))
      let type ← fieldText es "type" ""
      let label ← fieldText es "label" ""
      let category ← fieldText es "category" ""
      let parameters ← plainParameters id (field? es "parameters")
      let position ← position (field? es "position")
      pure { id, type, label, category := Naming.categoryTag category, parameters, position }
  | _ => .error (.document (.nodeNotMapping index))

/-- A handle under either of its two spellings. -/
def handle (es : Entries) (name other : String) : Except Fault String :=
  firstText [match field? es name with
    | some v => some v
    | none => field? es other]

/-- The connection at position `index` of the document. -/
def connection (index : Nat) (raw : Value) : Except Fault Connection :=
  match raw.opened with
  | .map es => match field? es "source", field? es "target" with
    | some s, some t => do
      let source ← text s
      let target ← text t
      let id ← firstText [field? es "id"]
      let sourceHandle ← handle es "sourceHandle" "source_handle"
      let targetHandle ← handle es "targetHandle" "target_handle"
      pure
        { id := if id ≠ "" then id else source ++ "->" ++ target ++ "#" ++ Text.ofNat index
          source
          target
          sourceHandle
          targetHandle }
    | _, _ => .error (.document (.connectionEnds index))
  | _ => .error (.document (.connectionEnds index))

/-- Reads values one by one with their positions, which start at `index`. -/
def readAll {α : Type} (read : Nat → Value → Except Fault α) (index : Nat) :
    List Value → Except Fault (List α)
  | [] => .ok []
  | v :: vs => do
    let x ← read index v
    let xs ← readAll read (index + 1) vs
    pure (x :: xs)

/-! ## Metadata -/

/-- A key and a value, if there are two parts and the first can be a key. -/
def pairOf : List Value → Except Fault (Scalar × Value)
  | [.scalar k, v] => .ok (k, v)
  | [_, _] => .error (.unfit .shape)
  | _ => .error .malformed

/-- The key and value of a pair: a list, a mapping's keys, a set or a text of length two. -/
def pair (v : Value) : Except Fault (Scalar × Value) :=
  match v.opened with
  | .list xs => pairOf xs
  | .map es => pairOf (es.map fun e => .scalar e.1)
  | .set ms => pairOf (ms.map .scalar)
  | .pair a b => pairOf [a, b]
  | .scalar (.str s) => pairOf (s.toList.map fun c => .str (String.singleton c))
  | .scalar (.bytes bs) => pairOf (bs.map fun b => .int b.toNat)
  | _ => .error (.unfit .shape)

/-- A mapping made from pairs. -/
def ofPairs (done : Entries) : List Value → Except Fault Entries
  | [] => .ok done
  | v :: vs => do
    let (k, x) ← pair v
    ofPairs (done.insert k x) vs

/-- The metadata as a mapping: a mapping, or a sequence of pairs. -/
def metadataEntries (v? : Option Value) : Except Fault Entries :=
  match (v?.filter Value.isTruthy).map Value.opened with
  | none => .ok []
  | some (.map es) => .ok es
  | some (.list xs) => ofPairs [] xs
  | some (.set ms) => ofPairs [] (ms.map .scalar)
  | some (.pair a b) => ofPairs [] [a, b]
  | some (.scalar (.str _)) => .error .malformed
  | some _ => .error (.unfit .shape)

/-- Copies a key of the document into the metadata, unless it is there. -/
def adopt (data : Entries) (es : Entries) (key : String) : Entries :=
  match field? data key, field? es key with
  | some v, none => es.insert (.str key) v
  | _, _ => es

/-! ## Graphs -/

/-- The list of nodes or connections; what is empty lists nothing. -/
def elements : Option Value → Value
  | some v => if v.isTruthy then v else .list []
  | none => .list []

/-- The list of connections: those under `connections`, unless that is null or not there, else
those under `edges`. -/
def connectionElements (data : Entries) : Value :=
  match field? data "connections" with
  | none | some .null => elements (field? data "edges")
  | some v => v

/-- The graph of a document. -/
def graph (document : Value) : Except Fault Graph :=
  match document.opened with
  | .map data =>
    match (elements (field? data "nodes")).opened, (connectionElements data).opened with
    | .list rawNodes, .list rawConnections => do
      let nodes ← readAll node 0 rawNodes
      let connections ← readAll connection 0 rawConnections
      let metadata ← metadataEntries (field? data "metadata")
      pure
        { nodes
          connections
          metadata := ["name", "version", "description"].foldl (adopt data) metadata }
    | _, _ => .error (.document .notLists)
  | _ => .error (.document .notMapping)

end Flowscript.Document
