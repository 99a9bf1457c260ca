/-
  Flowscript.Workflow.Refusal

  Why a document, a graph or a conversion is refused.  Each refusal is a cause with
  the data that belongs to it; its message, and the nodes and connections to point
  at, are read off the cause.
-/
import Flowscript.Workflow.Parameter

namespace Flowscript

/-! ## Causes -/

/-- What is wrong with a workflow document. -/
inductive DocumentFault where
  | notMapping
  | notLists
  | nodeNotMapping (index : Nat)
  | nodeWithoutId (index : Nat)
  | parameterWithoutName (index : Nat) (node : String)
  | parametersShape (node : String)
  | connectionEnds (index : Nat)
  | unreadable (reason : String)
  | malformedJson (path reason : String)
deriving DecidableEq, Repr

namespace DocumentFault

def message : DocumentFault → String
  | .notMapping => "Workflow document must be a mapping"
  | .notLists => "'nodes' and 'connections'/'edges' must be lists"
  | .nodeNotMapping i => "Node #" ++ Text.ofNat i ++ " must be a mapping"
  | .nodeWithoutId i => "Node #" ++ Text.ofNat i ++ " has no id"
  | .parameterWithoutName i node =>
    "Parameter #" ++ Text.ofNat i ++ " of node '" ++ node ++ "' must be a mapping with a name"
  | .parametersShape node => "Parameters of node '" ++ node ++ "' must be a list or mapping"
  | .connectionEnds i => "Connection #" ++ Text.ofNat i ++ " needs a source and a target"
  | .unreadable reason => "Invalid workflow document: " ++ reason
  | .malformedJson path reason => "Invalid JSON in " ++ path ++ ": " ++ reason

def nodeIds : DocumentFault → List String
  | .parameterWithoutName _ node => [node]
  | .parametersShape node => [node]
  | _ => []

end DocumentFault

/-- What is wrong with a parameter. -/
inductive Complaint where
  | required
  | wrongKind (expected got : ParameterKind)
  | stated (reason : String) (expected : Option String)
deriving DecidableEq, Repr

namespace Complaint

def reason : Complaint → String
  | .required => "is required"
  | .wrongKind expected got => "expected " ++ expected.name ++ ", got " ++ got.name
  | .stated reason _ => reason

def expected? : Complaint → Option String
  | .required => none
  | .wrongKind expected _ => some expected.name
  | .stated _ expected => expected

end Complaint

/-- The families of refusals. -/
inductive RefusalKind where
  | conversion
  | validation
  | cyclic
  | parameter
deriving DecidableEq, Repr

/-- The name of a family in reports. -/
def RefusalKind.name : RefusalKind → String
  | .conversion => "ConversionError"
  | .validation => "ValidationError"
  | .cyclic => "CyclicDependencyError"
  | .parameter => "ParameterValidationError"

/-- Why something is refused. -/
inductive Refusal where
  | document (fault : DocumentFault)
  | noNodes
  | duplicateIds (ids : List String)
  | dangling (connection : String) (unknown : List String)
  | cycle (members connections : List String)
  | parameter (node : String) (name : Scalar) (complaint : Complaint)
  | aggregate (causes : List Refusal)
  | unknownStrategy (name : String)
  | unordered
  | untypedConverter (converter : String)
  | alreadyRegistered (type : String)
  | unregisteredTarget (type : String)
  | aliasCollision (name : String)
  | unknownTemplate (name : String)
  | renderFailed (template reason : String)
  | noModel (chain label node : String)
  | noPrompt (label node : String)
  | stated (kind : RefusalKind) (message : String) (nodes connections : List String)
deriving Repr, Inhabited

namespace Refusal

def kind : Refusal → RefusalKind
  | .document _ | .noNodes | .duplicateIds _ | .dangling .. | .aggregate _ => .validation
  | .cycle .. => .cyclic
  | .parameter .. => .parameter
  | .stated k .. => k
  | _ => .conversion

/-- The members of a cycle, with the first one again at the end. -/
def cyclePath : List String → String
  | [] => ""
  | m :: ms => Text.join " -> " (m :: ms ++ [m])

mutual

/-- The message of a refusal. -/
def message : Refusal → String
  | .document f => f.message
  | .noNodes => "Workflow graph has no nodes"
  | .duplicateIds ids => "Duplicate node ids: " ++ Text.join ", " ids
  | .dangling c unknown =>
    "dangling edge: connection '" ++ c ++ "' references unknown node " ++
      Text.join ", " (unknown.map fun u => String.ofList (Text.inspect u.toList))
  | .cycle members _ => "Cycle detected: " ++ cyclePath members
  | .parameter node name c =>
    "Node '" ++ node ++ "' parameter '" ++ name.display ++ "' " ++ c.reason
  | .aggregate causes =>
    Text.ofNat causes.length ++ " structural errors: " ++ Text.join "; " (messages causes)
  | .unknownStrategy s => "Unknown ordering strategy '" ++ s ++ "'"
  | .unordered => "Graph could not be ordered"
  | .untypedConverter c => "Converter " ++ c ++ " declares no node type"
  | .alreadyRegistered t => "Converter for type '" ++ t ++ "' is already registered"
  | .unregisteredTarget t => "Target type '" ++ t ++ "' is not registered"
  | .aliasCollision a => "Alias '" ++ a ++ "' collides with a registered type"
  | .unknownTemplate t => "Unknown template '" ++ t ++ "'"
  | .renderFailed t reason => "Failed to render template '" ++ t ++ "': " ++ reason
  | .noModel chain label _ => chain ++ " '" ++ label ++ "' has no connected language model"
  | .noPrompt label _ => "LLMChain '" ++ label ++ "' has no connected prompt"
  | .stated _ m _ _ => m

/-- The messages of several refusals. -/
def messages : List Refusal → List String
  | [] => []
  | r :: rs => message r :: messages rs

end

mutual

/-- The nodes a refusal points at; several causes point at each node once. -/
def nodeIds : Refusal → List String
  | .document f => f.nodeIds
  | .duplicateIds ids => ids
  | .dangling _ unknown => unknown
  | .cycle members _ => members
  | .parameter node _ _ => [node]
  | .aggregate causes => Text.distinct (allNodeIds causes)
  | .noModel _ _ node => [node]
  | .noPrompt _ node => [node]
  | .stated _ _ nodes _ => nodes
  | _ => []

/-- The nodes several refusals point at, in order. -/
def allNodeIds : List Refusal → List String
  | [] => []
  | r :: rs => nodeIds r ++ allNodeIds rs

end

mutual

/-- The connections a refusal points at; several causes point at each connection once. -/
def connectionIds : Refusal → List String
  | .dangling c _ => [c]
  | .cycle _ cs => cs
  | .aggregate causes => Text.distinct (allConnectionIds causes)
  | .stated _ _ _ cs => cs
  | _ => []

/-- The connections several refusals point at, in order. -/
def allConnectionIds : List Refusal → List String
  | [] => []
  | r :: rs => connectionIds r ++ allConnectionIds rs

end

/-- The refusals folded into one. -/
def causes : Refusal → List Refusal
  | .aggregate causes => causes
  | _ => []

/-- Message, nodes and connections on one line. -/
def text (r : Refusal) : String :=
  Text.join " | " <|
    [r.message] ++
      (if r.nodeIds.isEmpty then [] else ["nodes: " ++ Text.join ", " r.nodeIds]) ++
      (if r.connectionIds.isEmpty then [] else ["connections: " ++ Text.join ", " r.connectionIds])

/-- A refusal as an entry of a report. -/
def toValue (r : Refusal) : Value :=
  .record [
    ("type", .str r.kind.name), ("message", .str r.message), ("node_ids", .strings r.nodeIds),
    ("connection_ids", .strings r.connectionIds)]

end Refusal

/-! ## Faults -/

/-- Why a value does not fit the place it is used in. -/
inductive Unfit where
  | notText (kind : String)
  | unwritable (message : String)
  | longInteger
  | shape
deriving DecidableEq, Repr

def Unfit.message : Unfit → String
  | .notText "bytes" => "cannot use a string pattern on a bytes-like object"
  | .notText kind => "expected string or bytes-like object, got '" ++ kind ++ "'"
  | .unwritable message => message
  | .longInteger => Decimal.tooLong
  | .shape => "value of an unfit shape"

/-- Why an operation ends without a result: a refusal, or a value of a shape that no rule
covers. -/
inductive Fault where
  | refused (r : Refusal)
  | noFields
  | unfit (why : Unfit)
  | malformed
  | outOfRange
  | absentKey
  | absentItem
  | endless
  | unknownModuleFormat (name : String)
  | tooManyFragments (limit : Nat)
  | fileNotFound (path : String)
  | stated (message : String)
deriving Repr, Inhabited

/-- The text of a fault, as far as it has one of its own. -/
def Fault.message : Fault → String
  | .refused r => r.text
  | .unfit why => why.message
  | .unknownModuleFormat name => "Unknown module format '" ++ name ++ "'"
  | .tooManyFragments limit => "A node may emit at most " ++ Text.ofNat limit ++ " fragments"
  | .fileNotFound path => "Workflow file not found: " ++ path
  | .stated message => message
  | _ => ""

/-- A fault that ends a conversion even where others leave out a file only. -/
def Fault.isFatal : Fault → Bool
  | .refused _ | .unfit _ | .malformed | .unknownModuleFormat _ | .tooManyFragments _ => false
  | _ => true

/-- A refusal of a document. -/
def Fault.document (f : DocumentFault) : Fault := .refused (.document f)

/-- An integer that is too long to be written. -/
abbrev Fault.longInteger : Fault := .unfit .longInteger

/-! ## Texts -/

/-- The text of a value by itself. -/
def Value.text (v : Value) : Except Fault String :=
  if v.hasLongInteger then .error .longInteger else .ok v.display

@[simp] theorem Value.text_str (s : String) : Value.text (.str s) = .ok s := rfl

theorem Value.text_of_hasLongInteger {v : Value} (h : v.hasLongInteger = true) :
    v.text = .error .longInteger := if_pos h

theorem Value.text_of_not_hasLongInteger {v : Value} (h : v.hasLongInteger = false) :
    v.text = .ok v.display := by simp [Value.text, h]

/-- The text of a string, a number or a boolean, if the value is one of them. -/
def ParameterValue.asText (v : ParameterValue) : Except Fault (Option String) :=
  if v.isLong then .error .longInteger else .ok v.text?

@[simp] theorem ParameterValue.asText_missing : asText .missing = .ok none := rfl

@[simp] theorem ParameterValue.asText_string (s : String) : asText (.string s) = .ok (some s) := rfl

theorem ParameterValue.asText_eq_ok {v : ParameterValue} {t : Option String}
    (h : v.asText = .ok t) : v.text? = t := by
  simp only [asText] at h
  split at h
  · cases h
  · exact Except.ok.inj h

end Flowscript
