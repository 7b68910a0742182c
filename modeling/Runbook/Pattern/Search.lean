import Runbook.Pattern.Group
import Runbook.Pattern.Program
import Runbook.Pattern.Size
import Runbook.Pattern.Texts

/-!
# Searching by patterns

A pattern can be searched for if it is well formed and stands for no too large automaton. Texts that
are looked for as they are need no automaton.
-/

namespace Runbook.Pattern

/-- The number of literals from which on a choice between literals needs no automaton. -/
def manyLiterals : Nat := 3000

/-- The expression cannot be searched for because of the size of its automaton. -/
def Regex.isOutOfReach (r : Regex) : Bool :=
  !r.literals?.any (manyLiterals ≤ ·.length) && r.isTooLarge

/-- The program of an expression that can be searched for. -/
def Program.ofRegex? (r : Regex) : Option Program :=
  match r.texts? with
  | some ts => some (.ofRegex (.ofBranches (ts.map fun t => .literal t.toList)))
  | none => if r.isOutOfReach then none else some (.ofRegex r)

/-- The program of a pattern that can be searched for. -/
def Program.ofPattern? (pattern : String) : Option Program :=
  (Regex.ofPattern? pattern).bind Program.ofRegex?

end Runbook.Pattern
