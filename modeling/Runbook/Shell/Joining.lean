import Runbook.Text.Blank
import Runbook.Shell.Scan

/-!
# Commands over several lines

A command goes on with the next physical line for as long as its text is unfinished. A line that
ends in a backslash is joined to the next one without the backslash; otherwise the line feed
between them is kept, since it stands inside quotes.
-/

namespace Runbook.Shell

/-- The text of a command whose first line is `line`. -/
def firstLine (line : String) : String :=
  Text.trimmed line

/-- The text of a command when one more line is joined to it. -/
def joinLine (text line : String) : String :=
  let cs := text.toList
  if cs.getLast? = some '\\' then String.ofList cs.dropLast ++ Text.trimmed line
  else text ++ "\n" ++ Text.trimmed line

/-- The texts after each line of a command, from the first line on. -/
def joinedTexts : List String → List String
  | [] => []
  | line :: rest => rest.scanl joinLine (firstLine line)

end Runbook.Shell
