/-
  Flowscript.Main

  The program run for real: its session is carried out on the files and the terminal.
-/
import Flowscript.Command.Program

namespace Flowscript.Command

/-- The kind of a path of the file system. -/
def realKind (path : String) : IO PathKind := do
  try
    let found ← IO.FS.realPath path
    if ← found.isDir then
      return .directory (← found.readDir).isEmpty
    else if ← found.pathExists then
      return .file
    else
      return .absent
  catch _ => return .absent

/-- Writes a file and makes the directories above it. -/
def realWrite (path content : String) : IO Unit := do
  let parents := (Pathname.parts path).dropLast.map String.ofList
  unless parents.isEmpty do
    let above := Text.join "/" parents
    IO.FS.createDirAll (if path.startsWith "/" then "/" ++ above else above)
  IO.FS.writeFile path content

/-- Carries a session out. -/
def perform {α : Type} : Session α → IO Ending
  | .done _ => return .success
  | .stop e => return e
  | .print .output line next => do
    IO.println line
    perform next
  | .print .errors line next => do
    IO.eprintln line
    perform next
  | .look path next => do
    let kind ← realKind path
    perform (next kind)
  | .read path next => do
    let text ← IO.FS.readFile path
    perform (next text)
  | .write path content next => do
    realWrite path content
    perform next

/-- The environment variables of the program. -/
def realVariables : IO (List (String × String)) := do
  let mut found := []
  for name in Settings.names do
    let small := Settings.variablePrefix ++ name
    for spelling in [small, small.toUpper] do
      if let some value ← IO.getEnv spelling then
        found := found ++ [(spelling, value)]
  return found

/-- What is said about an ending that is not the command's own. -/
def explanation? : Ending → Option String
  | .usage => some "Usage: flowgen [OPTIONS] COMMAND [ARGS]..."
  | .badSettings faults => some ("Invalid settings: " ++ Text.join "; " (faults.map FieldFault.text))
  | .fault f => some ("Unexpected value: " ++ f.message)
  | .file .notDirectory => some "Not a directory"
  | .file .alreadyThere => some "File exists"
  | .file .isDirectory => some "Is a directory"
  | .success | .failure => none

end Flowscript.Command

open Flowscript.Command in
/-- The program: its arguments in, its status out. -/
def main (words : List String) : IO UInt32 := do
  let ending ← perform (program (← realVariables) words)
  if let some text := explanation? ending then
    IO.eprintln text
  return UInt32.ofNat ending.status
