/-
  Flowscript.Command.FileSystem

  File systems as values, and sessions run on them.  A directory is there as long as
  a file is below it; all paths start from the root.
-/
import Flowscript.Assoc
import Flowscript.Command.Session
import Flowscript.Workflow.Source

namespace Flowscript.Command

/-- Files by path, each path the list of its parts. -/
structure FileSystem where
  files : List (List String × String) := []
deriving DecidableEq, Repr, Inhabited

namespace FileSystem

/-- The text of a file. -/
def get? (fs : FileSystem) (path : List String) : Option String := fs.files.lookup path

/-- Something is below a path. -/
def isDirectory (fs : FileSystem) (path : List String) : Bool :=
  path.isEmpty || fs.files.any fun f => path.isPrefixOf f.1 && path.length < f.1.length

/-- What is found under a path. -/
def kind (fs : FileSystem) (path : List String) : PathKind :=
  if (fs.get? path).isSome then .file
  else if fs.isDirectory path then .directory (path.isEmpty && fs.files.isEmpty)
  else .absent

/-- Walks along the parts of a path from a directory; two dots go up again.  Only directories can
be walked through. -/
def walk (fs : FileSystem) (here : List String) : List String → Option (List String)
  | [] => some here
  | p :: rest =>
    if !fs.isDirectory here then none
    else if p = ".." then walk fs here.dropLast rest
    else walk fs (here ++ [p]) rest

/-- The parts a path leads to, unless it leads through something that is no directory. -/
def resolve? (fs : FileSystem) (path : String) : Option (List String) :=
  if path = "" then none else fs.walk [] ((Pathname.parts path).map String.ofList)

/-- What a path leads to; a path that ends with a slash leads to no file. -/
def look (fs : FileSystem) (path : String) : PathKind :=
  match fs.resolve? path with
  | none => .absent
  | some parts =>
    if path.endsWith "/" && fs.kind parts = .file then .absent else fs.kind parts

/-- The text of the file a path leads to. -/
def content (fs : FileSystem) (path : String) : String :=
  ((fs.resolve? path).bind fs.get?).getD ""

/-- Puts a file under a path, in place of one that is there. -/
def putFile (path : List String) (content : String) :
    List (List String × String) → List (List String × String)
  | [] => [(path, content)]
  | f :: rest => if f.1 = path then (path, content) :: rest else f :: putFile path content rest

/-- The directories above a path, the nearest first. -/
def ancestors (path : List String) : List (List String) :=
  (List.range path.length).map fun n => path.take (path.length - 1 - n)

/-- Why a file cannot be written under a path, if it cannot. -/
def obstacle? (fs : FileSystem) (path : List String) : Option FileFault :=
  match (ancestors path).findIdx? fun a => (fs.get? a).isSome with
  | some 0 => some .alreadyThere
  | some _ => some .notDirectory
  | none => if fs.isDirectory path then some .isDirectory else none

/-- The parts of a path with two dots resolved, whether or not there are such directories. -/
def plainParts (path : String) : List String :=
  ((Pathname.parts path).map String.ofList).foldl
    (fun here p => if p = ".." then here.dropLast else here ++ [p]) []

/-- Writes a file and makes the directories above it. -/
def write (fs : FileSystem) (path content : String) : Except FileFault FileSystem :=
  let parts := plainParts path
  match fs.obstacle? parts with
  | some f => .error f
  | none => .ok { files := putFile parts content fs.files }

end FileSystem

/-- What a session leaves: what it printed, how it ended, and the file system. -/
structure Transcript where
  output : String := ""
  errors : String := ""
  ending : Ending := .success
  files : FileSystem
deriving Repr, Inhabited

namespace Session

/-- A line printed on a channel before all that follows. -/
def printed (channel : Channel) (line : String) (t : Transcript) : Transcript :=
  match channel with
  | .output => { t with output := line ++ "\n" ++ t.output }
  | .errors => { t with errors := line ++ "\n" ++ t.errors }

/-- Runs a session on a file system. -/
def run {α : Type} (fs : FileSystem) : Session α → Transcript
  | .done _ => { files := fs }
  | .stop e => { ending := e, files := fs }
  | .print channel line next => printed channel line (run fs next)
  | .look path next => run fs (next (fs.look path))
  | .read path next => run fs (next (fs.content path))
  | .write path content next => match fs.write path content with
    | .ok fs => run fs next
    | .error f => { ending := .file f, files := fs }

end Session

end Flowscript.Command
