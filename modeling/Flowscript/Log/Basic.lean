/-
  Flowscript.Log.Basic

  Log events and the lines they leave.  An event is written if its severity is not
  below the threshold.
-/
import Flowscript.Json.Writer
import Flowscript.Text.UpperCase

namespace Flowscript

/-- The forms of log lines. -/
inductive LogFormat where
  | console
  | json
deriving DecidableEq, Repr, Inhabited

namespace LogFormat

def name : LogFormat → String
  | .console => "console"
  | .json => "json"

/-- The format of a name. -/
def ofName? : String → Option LogFormat
  | "console" => some .console
  | "json" => some .json
  | _ => none

@[simp] theorem ofName?_name (f : LogFormat) : ofName? f.name = some f := by cases f <;> rfl

end LogFormat

/-- How severe an event is. -/
inductive Severity where
  | debug
  | info
  | warning
  | error
  | critical
deriving DecidableEq, Repr, Inhabited

namespace Severity

def name : Severity → String
  | .debug => "debug"
  | .info => "info"
  | .warning => "warning"
  | .error => "error"
  | .critical => "critical"

/-- The severity as a number. -/
def rank : Severity → Int
  | .debug => 10
  | .info => 20
  | .warning => 30
  | .error => 40
  | .critical => 50

def all : List Severity := [.debug, .info, .warning, .error, .critical]

/-- The severity of a name. -/
def ofName? (name : String) : Option Severity := all.find? (·.name = name)

end Severity

namespace Log

/-- The thresholds that have names. -/
def thresholds : List (String × Int) := [
  ("CRITICAL", 50), ("FATAL", 50), ("ERROR", 40), ("WARN", 30), ("WARNING", 30), ("INFO", 20),
  ("DEBUG", 10), ("NOTSET", 0)]

/-- The threshold of a name in any case; an unknown name is that of warnings. -/
def threshold (name : String) : Int :=
  (thresholds.lookup (String.ofList (Text.asciiUpper name.toList))).getD 30

/-- The threshold a value asks for: a number is one, a text names one, and any other value stands
for that of warnings. -/
def thresholdOf : Value → Int
  | .scalar (.int i) => i
  | .scalar (.str s) => threshold s
  | _ => 30

/-- An event with its fields. -/
structure Event where
  severity : Severity
  event : String
  fields : Entries := []
deriving Repr, Inhabited

/-- The event is written at a threshold. -/
def Event.passes (threshold : Int) (e : Event) : Bool := threshold ≤ e.severity.rank

/-- The line of an event from a logger: its fields, then what it is, where it comes from and how
severe it is. -/
def Event.line (logger : String) (e : Event) : Except Json.Unwritable String :=
  Json.write .line <| .map <|
    ((e.fields.insert (.str "event") (.str e.event)).insert (.str "logger") (.str logger)).insert
      (.str "level") (.str e.severity.name)

end Log

end Flowscript
