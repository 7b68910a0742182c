import Runbook.Document.Load
import Runbook.Pipeline.Outline

/-!
# Keeping pipelines in files

A repository loads documents from a disk and saves pipelines to it. Whether a file exists, is
executable or is text is asked of a probe, which need not be the disk.
-/

namespace Runbook

/-- Read-only questions about files. -/
structure Probe where
  isPresent : String → Bool
  isExecutable : String → Bool
  isTextFile : String → Bool
  [naming : Files.Path.Naming]

/-- The answers that a disk gives. -/
def Probe.ofDisk (d : Files.Disk) : Probe :=
  ⟨d.isPresent, d.isExecutable, d.isTextFile⟩

/-- The answers of a probe that knows the paths of three lists. -/
def Probe.ofLists (present executable text : List String) : Probe :=
  ⟨(present.any <| Files.Path.same ·), (executable.any <| Files.Path.same ·),
    (text.any <| Files.Path.same ·)⟩

/-- Why a pipeline could not be loaded or saved. -/
inductive RepositoryError where
  | load (e : Document.LoadError)
  | check (e : DuplicatedOption)
  | write (path : String) (cause : Files.FileError)
  | misuse (m : Misuse)
  deriving DecidableEq, Repr

def RepositoryError.message : RepositoryError → String
  | .load e => e.message
  | .check e => e.message
  | .write path cause => "Failed to write " ++ path ++ ": " ++ cause.message
  | .misuse m => m.message

/-- How pipelines are loaded and saved. -/
structure Repository where
  options : Document.Options
  probe : Probe
  encode : Shell.Encoder

namespace Repository

/-- What a load sees: the probe says what exists and where, the disk what it holds. -/
def setting (r : Repository) (d : Files.Disk) : Document.Setting where
  options := r.options
  files := { isPresent := r.probe.isPresent, read := d.read, naming := r.probe.naming }

/-- Loads a document and promotes its calls. -/
def loadChecked (r : Repository) (d : Files.Disk) (path : String) :
    Logged RepositoryError Document.Loaded := do
  let loaded ← (Document.loadFile (r.setting d) path).mapError .load
  let (p, checked) := loaded.pipeline.check
  checked.mapError .check
  Logged.tell ((Text.lines p.dump).map (⟨.debug, ·⟩))
  return { loaded with pipeline := p }

/-- Loads a document, promotes its calls, and reports a failure. -/
def load (r : Repository) (d : Files.Disk) (path : String) :
    Logged RepositoryError Document.Loaded := do
  Logged.log .info ("Loading pipeline " ++ path)
  try r.loadChecked d path
  catch e =>
    Logged.log .error ("Failed to load pipeline " ++ path ++ ": " ++ e.message)
    throw e

/-- Writes a pipeline to a path, in place of the file that is there. -/
def save (r : Repository) (d : Files.Disk) (p : Pipeline) (path : String) :
    Logged RepositoryError Files.Disk := do
  let text ← (Logged.ofExcept (p.render r.encode)).mapError .misuse
  match d.write path (Text.Utf8.encode text) with
  | .ok d =>
    Logged.log .info ("Saved pipeline to " ++ path)
    return d
  | .error cause =>
    let e := RepositoryError.write path cause
    Logged.log .error e.message
    throw e

/-- Whether a document seems to stand at a path: a text that is not executable. -/
def isDocument (r : Repository) (path : String) : Bool :=
  r.probe.isPresent path && !r.probe.isExecutable path && r.probe.isTextFile path

end Repository

end Runbook
