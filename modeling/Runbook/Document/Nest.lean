import Runbook.Document.Error
import Runbook.Document.Line
import Runbook.Document.Source
import Runbook.Pipeline.Command
import Runbook.Shell.Joining

/-!
# Reading blocks

Inside brackets the reader keeps the open blocks, innermost first, with the items read so far, and
the text of a command that is still unfinished. Every line takes it one step further. A nested
block that closes joins the table of blocks, and the block around it refers to it by its index; the
outermost block is handed to whoever opened it.
-/

namespace Runbook.Document

/-- The statements of a command text at a position: none while it is unfinished. -/
def commandAt (pos : Position) (text : String) : Except LoadError (Option (List Shell.Statement)) :=
  match Shell.tokenize text with
  | .complete statements => .ok (some statements)
  | .unfinished => .ok none
  | .malformed m => .error (.malformedCommand pos text m)

/-- An open block: its bracket and its items so far, the last one first. -/
structure Frame where
  bracket : Bracket
  items : List Item
  deriving DecidableEq, Repr

/-- A block that was just opened. -/
def Frame.new (b : Bracket) : Frame := ⟨b, []⟩

/-- The block that a frame has become when it closes. -/
def Frame.block (f : Frame) : Block := ⟨f.items.reverse, f.bracket.isParallel⟩

/-- More items for an open block. -/
def Frame.append (f : Frame) (xs : List Item) : Frame := { f with items := xs.reverse ++ f.items }

@[simp] theorem Frame.block_new (b : Bracket) : (Frame.new b).block = .empty b.isParallel := rfl

@[simp] theorem Frame.block_append (f : Frame) (xs : List Item) :
    (f.append xs).block = f.block.append xs := by
  simp [append, block, Block.append]

/-- The open blocks, and the text of an unfinished command in the innermost one. -/
structure Nest where
  inner : Frame
  outer : List Frame
  command : Option String
  deriving DecidableEq, Repr

/-- What a line inside brackets leads to: blocks still open, or the outermost one closed. -/
inductive Advance where
  | inside (nest : Nest) (table : Table)
  | closed (block : Block) (table : Table)

namespace Nest

/-- One block, just opened. -/
def new (b : Bracket) : Nest := ⟨.new b, [], none⟩

/-- The command with this text at the innermost place: its items join the innermost block once it
is complete. -/
def readCommand (n : Nest) (t : Table) (pos : Position) (text : String) :
    Logged LoadError Advance := do
  match ← Logged.ofExcept (commandAt pos text) with
  | none => return .inside { n with command := some text } t
  | some statements =>
    let x := Placement.ofCommand text statements n.inner.bracket.isParallel
    Logged.tell (x.records t)
    return .inside { n with inner := n.inner.append (x.itemsIn t), command := none } (x.addTo t)

/-- The innermost block closes. -/
def close (n : Nest) (t : Table) : Advance :=
  match n.outer with
  | [] => .closed n.inner.block t
  | f :: fs => .inside ⟨f.append [.block t.size], fs, n.command⟩ (t.push n.inner.block)

/-- One more line. -/
def step (n : Nest) (t : Table) (pos : Position) (line : String) : Logged LoadError Advance :=
  match n.command with
  | some text => n.readCommand t pos (Shell.joinLine text line)
  | none =>
    match rightBracket? line with
    | some found =>
      if found = n.inner.bracket then return n.close t
      else throw (.mismatchedBracket pos found n.inner.bracket)
    | none =>
      match leftBracket? line with
      | some b => return .inside ⟨.new b, n.inner :: n.outer, none⟩ t
      | none =>
        if isEmptyLine line ∨ isCommentLine line then return .inside n t
        else n.readCommand t pos (Shell.firstLine line)

/-- The error when the lines end here; `last` is the position of the last line. -/
def endError (n : Nest) (last : Position) : LoadError :=
  match n.command with
  | some _ => .unexpectedEnd last
  | none => .missingRightBracket last n.inner.bracket

end Nest

/-- What a reader has done: where the source stands, the table with the blocks it appended, and its
result. -/
structure Reading (α : Type) where
  source : Source
  table : Table
  outcome : Logged LoadError α

/-- The same reading with records written before it. -/
def Reading.withRecords {α : Type} (rs : List LogRecord) (r : Reading α) : Reading α :=
  { r with outcome := ⟨rs ++ r.outcome.records, r.outcome.result⟩ }

/-- Reads the lines of `rest` until the outermost open block closes. -/
def readNest (file : String) (n : Nest) (t : Table) (seen : List String) :
    List String → Reading Block
  | [] => ⟨⟨file, seen, []⟩, t, throw (n.endError ⟨file, seen.length⟩)⟩
  | line :: rest =>
    let x := n.step t ⟨file, seen.length + 1⟩ line
    match x.result with
    | .error e => ⟨⟨file, line :: seen, rest⟩, t, ⟨x.records, .error e⟩⟩
    | .ok (.closed b t) => ⟨⟨file, line :: seen, rest⟩, t, ⟨x.records, .ok b⟩⟩
    | .ok (.inside n t) => (readNest file n t (line :: seen) rest).withRecords x.records

/-- Reads the block whose opening bracket is under the cursor, up to its closing bracket. -/
def readBlock (s : Source) (t : Table) (b : Bracket) : Reading Block :=
  readNest s.file (.new b) t s.seen s.rest

/-- Reads the command with this text up to the line that completes it. -/
def readCommandFrom (file : String) (parallel : Bool) (t : Table) (text : String)
    (seen rest : List String) : Reading (List Item) :=
  match commandAt ⟨file, seen.length⟩ text, rest with
  | .error e, _ => ⟨⟨file, seen, rest⟩, t, throw e⟩
  | .ok (some statements), _ =>
    let x := Placement.ofCommand text statements parallel
    ⟨⟨file, seen, rest⟩, x.addTo t, ⟨x.records t, .ok (x.itemsIn t)⟩⟩
  | .ok none, [] => ⟨⟨file, seen, []⟩, t, throw (.unexpectedEnd ⟨file, seen.length⟩)⟩
  | .ok none, line :: rest =>
    readCommandFrom file parallel t (Shell.joinLine text line) (line :: seen) rest

/-- Reads the command that starts under the cursor. -/
def readCommand (s : Source) (t : Table) (parallel : Bool) : Reading (List Item) :=
  readCommandFrom s.file parallel t (Shell.firstLine s.current) s.seen s.rest

end Runbook.Document
