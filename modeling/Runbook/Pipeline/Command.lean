import Runbook.Log
import Runbook.Pipeline.Basic

/-!
# From commands to items

Every statement of a command line becomes an item. In a parallel block the statements of one line
still run in order: they go into a sequential block of their own. A line of several statements
with a lone bracket among them stays one item, because on a line of its own that statement would
be read as a bracket.
-/

namespace Runbook

/-- What a command line becomes in a block. -/
inductive Placement where
  /-- Items of the block itself. -/
  | items (xs : List Item)
  /-- A reference to this new block. -/
  | wrapped (b : Block)
  deriving DecidableEq, Repr

/-- A table of blocks. -/
abbrev Table := Array Block

namespace Placement

/-- The statements of a command line in a block that is parallel or not. -/
def ofCommand (line : String) (statements : List Shell.Statement) (parallel : Bool) : Placement :=
  if statements.length > 1 ∧ statements.any Shell.Statement.isBracket then
    .items [.ofStatements line statements]
  else if parallel ∧ statements.length > 1 then
    .wrapped ⟨statements.map .ofStatement, false⟩
  else .items (statements.map .ofStatement)

/-- A command line that may be no complete command: then it is one item without words. -/
def ofLine (line : String) (parallel : Bool) : Placement :=
  match Shell.tokenize line with
  | .complete statements => ofCommand line statements parallel
  | _ => .items [.ofLine line]

/-- The items for the block when the table is `t`. -/
def itemsIn (x : Placement) (t : Table) : List Item :=
  match x with
  | .items xs => xs
  | .wrapped _ => [.block t.size]

/-- The table with the new block. -/
def addTo (x : Placement) (t : Table) : Table :=
  match x with
  | .items _ => t
  | .wrapped b => t.push b

/-- What the log says about the new block. -/
def records (x : Placement) (t : Table) : List LogRecord :=
  match x with
  | .items _ => []
  | .wrapped b =>
    [⟨.debug, toString b.items.length ++ " statement(s) wrapped in sequential block " ++
      toString t.size⟩]

end Placement

/-- Items gathered for a block, the table with the blocks they brought, and what the log says. -/
structure Gathered where
  items : List Item
  table : Table
  records : List LogRecord

/-- The items of command lines, one line after the other. -/
def Gathered.ofLines (parallel : Bool) (t : Table) : List String → Gathered
  | [] => ⟨[], t, []⟩
  | line :: rest =>
    let x := Placement.ofLine (Text.trimmed line) parallel
    let more := ofLines parallel (x.addTo t) rest
    ⟨x.itemsIn t ++ more.items, more.table, x.records t ++ more.records⟩

/-- Fills the empty default block with command lines. -/
def Pipeline.setDefaultLines (p : Pipeline) (parallel : Bool) (lines : List String) :
    Logged Misuse Pipeline := do
  let b ← Logged.ofExcept p.defaultBlock
  if b.items.isEmpty then
    let more := Gathered.ofLines parallel p.blocks lines
    Logged.tell more.records
    Logged.ofExcept <| Pipeline.modifyBlock { p with blocks := more.table } defaultIndex
      fun _ => ⟨more.items, parallel⟩
  else throw .defaultPopulated

end Runbook
