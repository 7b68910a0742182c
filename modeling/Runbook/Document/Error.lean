import Runbook.Files.Disk
import Runbook.Pipeline.Promotion
import Runbook.Shell.Scan

/-!
# Errors of loading

Each error holds what its wording needs, above all the position it was found at.
-/

namespace Runbook.Document

/-- Why a document or configuration file cannot be loaded. -/
inductive LoadError where
  /-- A file could not be read. -/
  | unreadable (path : String) (cause : Files.FileError)
  /-- A block is closed by a bracket of the other kind. -/
  | mismatchedBracket (pos : Position) (found expected : Bracket)
  /-- The document ends inside a block. -/
  | missingRightBracket (pos : Position) (expected : Bracket)
  /-- The document ends between a header and its block. -/
  | missingLeftBracket (header : Position)
  /-- A line between a header and its block. -/
  | expectedLeftBracket (pos : Position)
  /-- An attribute between a header and its block. -/
  | unexpectedAttribute (pos : Position)
  /-- A closing bracket outside of any block. -/
  | unmatchedRightBracket (pos : Position) (found : Bracket)
  /-- The document ends inside a command. -/
  | unexpectedEnd (pos : Position)
  /-- A command that no further line can complete. -/
  | malformedCommand (pos : Position) (line : String) (cause : Shell.Malformed)
  /-- A procedure that is declared twice. -/
  | duplicateProcedure (name : String) (pos previous : Position)
  /-- A line of a configuration file that is no assignment. -/
  | invalidConfigLine (pos : Position)
  /-- An included file that does not exist. -/
  | includeNotFound (path : String) (pos : Position)
  /-- A rule of the pipeline broken by the loader. -/
  | misuse (m : Misuse)
  deriving DecidableEq, Repr

def LoadError.message : LoadError → String
  | .unreadable path cause => "Failed to read " ++ path ++ ": " ++ cause.message
  | .mismatchedBracket pos found expected =>
    "Unexpected right bracket '" ++ found.closing ++ "' at " ++ pos.text ++ ", right bracket '" ++
      expected.closing ++ "' was expected here"
  | .missingRightBracket pos expected =>
    "Missing right bracket '" ++ expected.closing ++ "' at " ++ pos.text
  | .missingLeftBracket header =>
    "Missing left bracket for procedure declared at " ++ header.text
  | .expectedLeftBracket pos =>
    "Unexpected line at " ++ pos.text ++ ", only '" ++ Bracket.sequential.opening ++ "' or '" ++
      Bracket.parallel.opening ++ "' was expected here"
  | .unexpectedAttribute pos => "Unexpected attribute line at " ++ pos.text
  | .unmatchedRightBracket pos found =>
    "Unexpected right bracket '" ++ found.closing ++ "' at " ++ pos.text ++
      " outside of any block"
  | .unexpectedEnd pos => "Unexpected end of file at " ++ pos.text ++ " while reading a command"
  | .malformedCommand pos line cause =>
    "Error when parsing shell command at " ++ pos.text ++ ":\n   " ++ line ++ "\n   " ++
      cause.marker line
  | .duplicateProcedure name pos previous =>
    "Duplicated procedure '" ++ name ++ "' at " ++ pos.text ++ ", previous definition of '" ++
      name ++ "' was in " ++ previous.text
  | .invalidConfigLine pos =>
    "Invalid syntax of configuration file at " ++ pos.text ++
      ", only global variable definitions are allowed"
  | .includeNotFound path pos =>
    "Included file " ++ path ++ " not found, included at " ++ pos.text
  | .misuse m => m.message

end Runbook.Document
