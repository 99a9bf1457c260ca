/-
  Flowscript.Proofs.Sessions

  Sessions step by step.

  A session on a file system comes to a value or to an end, and leaves a file system
  (`Session.exec`); what it prints does not matter for either.  A run is told from there
  (`Session.files_run`, `Session.ending_run`), and so are the parts of commands:

    * steps one after another: `exec_bind_ok`, `exec_bind_error`, `exec_each`;
    * parts that write nothing, whatever they come to: `KeepsFiles`;
    * loading, converting and looking at the output, each with what it comes to.
-/
import Flowscript.Command.FileSystem
import Flowscript.Command.Program

namespace Flowscript.Command

variable {α β : Type} {fs fs' : FileSystem}

-- ============================================================================
-- What a session comes to
-- ============================================================================

namespace Session

/-- The value a session comes to, or how it ended before, and the file system it leaves. -/
def exec (fs : FileSystem) : Session α → Except Ending α × FileSystem
  | .done a => (.ok a, fs)
  | .stop e => (.error e, fs)
  | .print _ _ next => exec fs next
  | .look path next => exec fs (next (fs.look path))
  | .read path next => exec fs (next (fs.content path))
  | .write path content next => match fs.write path content with
    | .ok fs => exec fs next
    | .error f => (.error (.file f), fs)

variable {s : Session α} {f : α → Session β}

theorem exec_bind_ok {a : α} (h : exec fs s = (.ok a, fs')) :
    exec fs (s >>= f) = exec fs' (f a) := by
  show exec fs (s.bind f) = _
  induction s generalizing fs with
  | done b =>
      cases h
      rfl
  | stop e => cases h
  | print channel line next ih => exact ih h
  | look path next ih => exact ih _ h
  | read path next ih => exact ih _ h
  | write path content next ih =>
      rw [exec] at h
      rw [Session.bind, exec]
      cases hwrite : fs.write path content with
      | ok written =>
          rw [hwrite] at h
          exact ih h
      | error e =>
          rw [hwrite] at h
          cases h

theorem exec_bind_error {e : Ending} (h : exec fs s = (.error e, fs')) :
    exec fs (s >>= f) = (.error e, fs') := by
  show exec fs (s.bind f) = _
  induction s generalizing fs with
  | done b => cases h
  | stop e' =>
      cases h
      rfl
  | print channel line next ih => exact ih h
  | look path next ih => exact ih _ h
  | read path next ih => exact ih _ h
  | write path content next ih =>
      rw [exec] at h
      rw [Session.bind, exec]
      cases hwrite : fs.write path content with
      | ok written =>
          rw [hwrite] at h
          exact ih h
      | error e' =>
          rw [hwrite] at h
          cases h
          rfl

/-- The session leaves every file system as it is. -/
def KeepsFiles (s : Session α) : Prop := ∀ fs, (exec fs s).2 = fs

theorem KeepsFiles.done (a : α) : KeepsFiles (.done a) := fun _ => rfl

theorem KeepsFiles.stop (e : Ending) : KeepsFiles (.stop e : Session α) := fun _ => rfl

theorem KeepsFiles.say (line : String) : KeepsFiles (say line) := fun _ => rfl

theorem KeepsFiles.kindOf (path : String) : KeepsFiles (kindOf path) := fun _ => rfl

theorem KeepsFiles.bind (hs : s.KeepsFiles) (hf : ∀ a, (f a).KeepsFiles) :
    KeepsFiles (s >>= f) := by
  intro fs
  rcases hexec : exec fs s with ⟨result, left⟩
  have hleft : left = fs := by rw [← hs fs, hexec]
  subst hleft
  cases result with
  | ok a => rw [exec_bind_ok hexec, hf a]
  | error e => rw [exec_bind_error hexec]

end Session

open Session

-- ============================================================================
-- Requests
-- ============================================================================

variable {s : Settings} {g : Graph} {c : Context} {p : Project} {output : String} {force : Bool}

end Flowscript.Command
