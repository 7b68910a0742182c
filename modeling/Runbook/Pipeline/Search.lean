import Runbook.Pattern.Search
import Runbook.Pipeline.Basic

/-!
# Procedures by pattern
-/

namespace Runbook

/-- The names of the procedures that match a pattern somewhere, in name order; none if the pattern
cannot be searched for. -/
def Pipeline.namesMatching? (p : Pipeline) (pattern : String) : Option (List String) :=
  (Pattern.Program.ofPattern? pattern).map fun program =>
    p.procedures.names.filter program.isMatch

end Runbook
