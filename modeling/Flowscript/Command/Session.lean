/-
  Flowscript.Command.Session

  What a command does with its surroundings, as data: lines it prints, paths it looks
  at, files it reads and writes, and how it ends.  A session can be run on a file
  system that is a value, or for real.
-/
import Flowscript.Settings.Field
import Flowscript.Workflow.Refusal

namespace Flowscript.Command

/-- What is found under a path. -/
inductive PathKind where
  | absent
  | file
  | directory (isEmpty : Bool)
deriving DecidableEq, Repr, Inhabited

/-- Why a file cannot be reached or written. -/
inductive FileFault where
  | notDirectory
  | alreadyThere
  | isDirectory
deriving DecidableEq, Repr, Inhabited

/-- How a command ends before its last step, or at it. -/
inductive Ending where
  | success
  | failure
  | usage
  | badSettings (faults : List FieldFault)
  | fault (f : Fault)
  | file (f : FileFault)
deriving Repr, Inhabited

/-- The status a program reports. -/
def Ending.status : Ending → Nat
  | .success => 0
  | .usage => 2
  | _ => 1

/-- The two channels of output. -/
inductive Channel where
  | output
  | errors
deriving DecidableEq, Repr, Inhabited

/-- The steps of a command. -/
inductive Session (α : Type) where
  | done (a : α)
  | stop (e : Ending)
  | print (channel : Channel) (line : String) (next : Session α)
  | look (path : String) (next : PathKind → Session α)
  | read (path : String) (next : String → Session α)
  | write (path content : String) (next : Session α)

namespace Session

/-- The steps of one session, then those of another one; one that has stopped goes no further. -/
def bind {α β : Type} (f : α → Session β) : Session α → Session β
  | .done a => f a
  | .stop e => .stop e
  | .print channel line next => .print channel line (bind f next)
  | .look path next => .look path fun k => bind f (next k)
  | .read path next => .read path fun s => bind f (next s)
  | .write path content next => .write path content (bind f next)

instance : Monad Session where
  pure := .done
  bind s f := s.bind f

/-- Prints a line. -/
def say (line : String) : Session Unit := .print .output line (.done ())

/-- Prints a line on the channel for errors. -/
def complain (line : String) : Session Unit := .print .errors line (.done ())

/-- What is found under a path. -/
def kindOf (path : String) : Session PathKind := .look path .done

/-- The text of a file. -/
def contentOf (path : String) : Session String := .read path .done

/-- Writes a file and the directories above it. -/
def put (path content : String) : Session Unit := .write path content (.done ())

/-- Does something for each item of a list. -/
def each {α : Type} (f : α → Session Unit) : List α → Session Unit
  | [] => .done ()
  | x :: xs => (f x).bind fun _ => each f xs

@[simp] theorem bind_done {α β : Type} (a : α) (f : α → Session β) : bind f (.done a) = f a := rfl

@[simp] theorem bind_stop {α β : Type} (e : Ending) (f : α → Session β) :
    bind f (.stop e : Session α) = .stop e := rfl

end Session

end Flowscript.Command
