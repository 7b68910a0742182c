import Runbook.Document.Error
import Runbook.Document.Line
import Runbook.Document.Source
import Runbook.Log

/-!
# Configuration files

A configuration file assigns variables; blank lines and comments may stand between the assignments,
and any other line is an error. The assignments before the first wrong line count.
-/

namespace Runbook.Document

abbrev Variables := ByName String

/-- What reading a configuration file has done: the variables afterwards, where the source stands,
and whether it was read to its end. -/
structure ConfigReading where
  assigned : Variables
  source : Source
  outcome : Logged LoadError PUnit

/-- Reads the lines of `rest`; `count` assignments are read. -/
def readAssignments (file : String) (vars : Variables) (count : Nat) (seen : List String) :
    List String → ConfigReading
  | [] =>
    ⟨vars, ⟨file, seen, []⟩,
      Logged.log .debug (toString count ++ " variable(s) read from " ++ file)⟩
  | line :: rest =>
    match classify line with
    | .empty | .comment | .attribute => readAssignments file vars count (line :: seen) rest
    | .variable name value =>
      readAssignments file (vars.insert name value) (count + 1) (line :: seen) rest
    | _ =>
      ⟨vars, ⟨file, line :: seen, rest⟩, throw (.invalidConfigLine ⟨file, seen.length + 1⟩)⟩

/-- Reads the assignments of a source into `vars`. -/
def readConfig (s : Source) (vars : Variables) : ConfigReading :=
  readAssignments s.file vars 0 s.seen s.rest

/-- Reads the assignments of a file, whose text or error is `content`, into `vars`. -/
def readConfigFile (path : String) (content : Except Files.FileError String) (vars : Variables) :
    ConfigReading :=
  match content with
  | .ok text => readConfig (.ofText path text) vars
  | .error e => ⟨vars, .ofText path "", throw (.unreadable path e)⟩

/-- The variables of a reading that came to the end of its file. -/
def ConfigReading.all (r : ConfigReading) : Logged LoadError Variables := do
  r.outcome
  return r.assigned

end Runbook.Document
