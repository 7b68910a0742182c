/-!
# Misuse of a pipeline

Some operations promise a result only to callers that keep a rule, such as to name an existing
block. `Misuse` lists the ways to break these rules; such an operation changes nothing.
-/

namespace Runbook

/-- A call that breaks what its callers promise. -/
inductive Misuse where
  | argumentTwice (name : String)
  | procedureTwice (name : String)
  | unknownProcedure (name : String)
  | defaultPopulated
  /-- An index outside the table of blocks. -/
  | noSuchBlock (index : Nat)
  /-- A block that contains itself. -/
  | cyclicBlock (index : Nat)
  deriving DecidableEq, Repr

def Misuse.message : Misuse → String
  | .argumentTwice name => "argument '" ++ name ++ "' added twice"
  | .procedureTwice name => "procedure '" ++ name ++ "' registered twice"
  | .unknownProcedure name => "unknown procedure '" ++ name ++ "'"
  | .defaultPopulated => "default block is already populated"
  | .noSuchBlock index => "no block " ++ toString index
  | .cyclicBlock index => "block " ++ toString index ++ " contains itself"

end Runbook
