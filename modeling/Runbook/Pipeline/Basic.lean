import Runbook.ByName
import Runbook.Pipeline.Block

/-!
# Pipelines

A pipeline owns the blocks and procedures of a document. Blocks stand in one table and refer to
each other by index; the table only grows at its end, so an index stays good. Block 0 is the
default block: what the document runs outside procedures.
-/

namespace Runbook

/-- A line of a file. -/
structure Position where
  file : String
  line : Nat
  deriving DecidableEq, Repr

/-- The file with the line number in parentheses. -/
def Position.text (p : Position) : String :=
  p.file ++ "(" ++ toString p.line ++ ")"

/-- A named block, with the attributes written above its declaration. -/
structure Procedure where
  name : String
  blockIndex : Nat
  attributes : List (String × String)
  deriving DecidableEq, Repr

/-- The value of an attribute, the first one where a key is repeated. -/
def Procedure.attribute? (p : Procedure) (key : String) : Option String :=
  (p.attributes.find? (·.1 = key)).map (·.2)

/-- The blocks and procedures of a document, and where the procedures are declared. -/
structure Pipeline where
  blocks : Array Block
  procedures : ByName Procedure
  declarations : ByName Position
  deriving DecidableEq

namespace Pipeline

/-- The index of the default block. -/
def defaultIndex : Nat := 0

/-- A pipeline with nothing but an empty default block. -/
def empty (parallel : Bool) : Pipeline :=
  ⟨#[.empty parallel], .empty, .empty⟩

def block (p : Pipeline) (i : Nat) : Except Misuse Block :=
  match p.blocks[i]? with
  | some b => .ok b
  | none => .error (.noSuchBlock i)

def modifyBlock (p : Pipeline) (i : Nat) (f : Block → Block) : Except Misuse Pipeline :=
  if i < p.blocks.size then .ok { p with blocks := p.blocks.modify i f }
  else .error (.noSuchBlock i)

/-- The pipeline with one more block, which gets the index `p.blocks.size`. -/
def pushBlock (p : Pipeline) (b : Block) : Pipeline :=
  { p with blocks := p.blocks.push b }

def defaultBlock (p : Pipeline) : Except Misuse Block :=
  p.block defaultIndex

/-- Notes where a procedure is declared. -/
def declare (p : Pipeline) (name : String) (pos : Position) : Pipeline :=
  { p with declarations := p.declarations.insert name pos }

/-- One more procedure; its name must be new. -/
def addProcedure (p : Pipeline) (x : Procedure) : Except Misuse Pipeline :=
  if p.procedures.contains x.name then .error (.procedureTwice x.name)
  else .ok { p with procedures := p.procedures.insert x.name x }

def blockIndex (p : Pipeline) (name : String) : Except Misuse Nat :=
  match p.procedures.get? name with
  | some x => .ok x.blockIndex
  | none => .error (.unknownProcedure name)

def procedureBlock (p : Pipeline) (name : String) : Except Misuse Block := do
  p.block (← p.blockIndex name)

/-- Empties the default block and makes it sequential. -/
def clearDefault (p : Pipeline) : Except Misuse Pipeline :=
  p.modifyBlock defaultIndex fun _ => .empty false

/-- Fills the empty default block with one procedure call. -/
def setDefaultCall (p : Pipeline) (name : String) (args : Arguments) : Except Misuse Pipeline := do
  let b ← p.defaultBlock
  if b.items.isEmpty then p.modifyBlock defaultIndex (·.push (.call name args))
  else throw .defaultPopulated

/-- The table of blocks as text. -/
def dump (p : Pipeline) : String :=
  "===== pipeline dump - " ++ toString p.blocks.size ++ " block(s):\n" ++
    String.join (p.blocks.toList.zipIdx.map fun (b, i) =>
      "block[" ++ toString i ++ "]: " ++ b.detail ++ "\n") ++
    "===== pipeline dump end ====="

@[simp] theorem blocks_pushBlock (p : Pipeline) (b : Block) :
    (p.pushBlock b).blocks = p.blocks.push b := rfl

end Pipeline

end Runbook
