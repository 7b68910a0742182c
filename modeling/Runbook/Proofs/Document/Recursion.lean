import Runbook.Proofs.Document.Continuing
import Runbook.Proofs.Document.DefaultLines

/-!
# Blocks within blocks

A reader that keeps its open blocks in a list does what a reader does that calls itself at every
opening bracket. An open block is read as if no other block were open, whether it comes to its
closing bracket or fails; the block around it is then gone on with, the inner one in the table
(`readNest_under`). So a block is read line by line as `readFrame_cons` says: a closing bracket ends
it, an opening one reads a block of its own first, and a command is read up to its last line.
-/

namespace Runbook.Document

variable {α β : Type} {file text line : String} {seen rest : List String} {n : Nest}
  {f : Frame} {fs : List Frame} {t : Table} {pos : Position} {b : Bracket}

/-! ## Readings one after the other -/

namespace Reading

/-- Goes on with the value of a reading, from where it has left the source and the table. An error
ends both. -/
def andThen (r : Reading α) (next : α → Source → Table → Reading β) : Reading β :=
  match r.outcome.result with
  | .ok a => (next a r.source r.table).withRecords r.outcome.records
  | .error e => ⟨r.source, r.table, ⟨r.outcome.records, .error e⟩⟩

@[simp] theorem withRecords_nil (r : Reading α) : r.withRecords [] = r := rfl

theorem withRecords_andThen (rs : List LogRecord) (r : Reading α)
    (next : α → Source → Table → Reading β) :
    (r.withRecords rs).andThen next = (r.andThen next).withRecords rs := by
  obtain ⟨s, t, records, result⟩ := r
  cases result with
  | error e => rfl
  | ok a => simp [andThen, withRecords]

end Reading

/-- The reading that goes on from `s` when its last line has led to `x`. -/
def readOn (x : Logged LoadError Advance) (s : Source) (t : Table) : Reading Block :=
  match x.result with
  | .error e => ⟨s, t, ⟨x.records, .error e⟩⟩
  | .ok (.closed b t) => ⟨s, t, ⟨x.records, .ok b⟩⟩
  | .ok (.inside n t) => (readNest s.file n t s.seen s.rest).withRecords x.records

theorem readNest_cons : readNest file n t seen (line :: rest) =
    readOn (n.step t ⟨file, seen.length + 1⟩ line) ⟨file, line :: seen, rest⟩ t := rfl

/-! ## Blocks around the open ones -/

/-- The open blocks inside further ones, the innermost of these first. -/
def Nest.under (n : Nest) (f : Frame) (fs : List Frame) : Nest :=
  { n with outer := n.outer ++ f :: fs }

/-- What a line leads to inside further blocks: the block that closes there joins the table, and the
block around it refers to it. -/
def Advance.under (f : Frame) (fs : List Frame) : Advance → Advance
  | .inside n t => .inside (n.under f fs) t
  | .closed b t => .inside ⟨f.append [.block t.size], fs, none⟩ (t.push b)

namespace Nest

theorem readCommand_under (n : Nest) (f : Frame) (fs : List Frame) (t : Table) (pos : Position)
    (text : String) :
    (n.under f fs).readCommand t pos text = Advance.under f fs <$> n.readCommand t pos text := by
  unfold readCommand
  rw [map_bind]
  congr 1
  funext statements
  cases statements with
  | none => rfl
  | some statements =>
    simp only [map_bind, map_pure]
    rfl

theorem close_under (h : n.command = none) (f : Frame) (fs : List Frame) (t : Table) :
    (n.under f fs).close t = (n.close t).under f fs := by
  unfold close under
  cases n.outer with
  | nil => rw [h]; rfl
  | cons g gs => rfl

/-- **Steps.** No line inside the open blocks depends on the blocks around them. -/
theorem step_under (n : Nest) (f : Frame) (fs : List Frame) (t : Table) (pos : Position)
    (line : String) :
    (n.under f fs).step t pos line = Advance.under f fs <$> n.step t pos line := by
  cases hcommand : n.command with
  | some text =>
    have hstep := readCommand_under n f fs t pos (Shell.joinLine text line)
    unfold step
    simpa only [hcommand, show (n.under f fs).command = n.command from rfl] using hstep
  | none =>
    have hunder : (n.under f fs).command = none := hcommand
    unfold step
    simp only [hcommand, hunder]
    split
    · next found _ =>
      by_cases hfound : found = n.inner.bracket
      · rw [if_pos hfound, if_pos (show found = (n.under f fs).inner.bracket from hfound),
          close_under hcommand, map_pure]
      · rw [if_neg hfound, if_neg (show found ≠ (n.under f fs).inner.bracket from hfound)]
        rfl
    · split
      · rfl
      · split
        · rfl
        · exact readCommand_under n f fs t pos _

end Nest

/-- **Nested reading.** The open blocks are read as if there were none around them. If they fail, so
does the whole, with the same error at the same place; where the outermost of them closes, the block
around it is gone on with. -/
theorem readNest_under (n : Nest) (f : Frame) (fs : List Frame) (t : Table)
    (seen rest : List String) :
    readNest file (n.under f fs) t seen rest =
      (readNest file n t seen rest).andThen fun block s t =>
        readNest s.file ⟨f.append [.block t.size], fs, none⟩ (t.push block) s.seen s.rest := by
  induction rest generalizing n t seen with
  | nil => rfl
  | cons line rest ih =>
    rw [readNest_cons, readNest_cons, Nest.step_under]
    obtain ⟨records, result⟩ := n.step t ⟨file, seen.length + 1⟩ line
    cases result with
    | error e => rfl
    | ok a =>
      cases a with
      | closed block u => simp [readOn, Reading.andThen, Advance.under, Functor.map, Logged.bind]
      | inside m u =>
        simp only [readOn, Reading.withRecords_andThen, ← ih]
        simp [Advance.under, Functor.map, Logged.bind]

/-! ## The recursion -/

/-- Reads the lines behind `s` into an open block, up to its closing bracket. -/
def readFrame (f : Frame) (s : Source) (t : Table) : Reading Block :=
  readNest s.file ⟨f, [], none⟩ t s.seen s.rest

theorem readBlock_eq_readFrame (s : Source) (t : Table) (b : Bracket) :
    readBlock s t b = readFrame (.new b) s t := rfl

theorem readFrame_of_leftBracket? (hline : leftBracket? line = some b) :
    readFrame f ⟨file, seen, line :: rest⟩ t =
      (readBlock ⟨file, line :: seen, rest⟩ t b).andThen fun child s t =>
        readFrame (f.append [.block t.size]) s (t.push child) := by
  have hstep (pos : Position) : Nest.step ⟨f, [], none⟩ t pos line =
      pure (.inside ((Nest.new b).under f []) t) := by
    unfold Nest.step
    simp only [rightBracket?_of_leftBracket? hline, hline]
    rfl
  unfold readFrame readBlock
  rw [readNest_cons, hstep]
  exact readNest_under (.new b) f [] t (line :: seen) rest

/-- A command with this text is read up to its last line, then the block is gone on with. The recursion
is on the lines behind it. -/
theorem readOn_readCommand (n : Nest) (t : Table) (text : String) (seen rest : List String) :
    readOn (n.readCommand t ⟨file, seen.length⟩ text) ⟨file, seen, rest⟩ t =
      (readCommandFrom file n.inner.bracket.isParallel t text seen rest).andThen fun items s t =>
        readNest s.file ⟨n.inner.append items, n.outer, none⟩ t s.seen s.rest := by
  cases hscan : Shell.tokenize text with
  | complete statements =>
    rw [Nest.readCommand_of_complete hscan, readCommandFrom_of_complete hscan]
    rfl
  | malformed m =>
    unfold Nest.readCommand readCommandFrom commandAt
    rw [hscan]
    rfl
  | unfinished =>
    have hstep : n.readCommand t ⟨file, seen.length⟩ text =
        pure (.inside { n with command := some text } t) := by
      unfold Nest.readCommand commandAt
      rw [hscan]
      rfl
    rw [hstep]
    cases rest with
    | nil =>
      unfold readCommandFrom commandAt
      rw [hscan]
      rfl
    | cons line rest =>
      rw [readCommandFrom_of_unfinished hscan]
      exact readOn_readCommand { n with command := some text } t (Shell.joinLine text line)
        (line :: seen) rest

theorem readFrame_of_command (hright : rightBracket? line = none)
    (hleft : leftBracket? line = none)
    (hline : ¬(isEmptyLine line = true ∨ isCommentLine line = true)) :
    readFrame f ⟨file, seen, line :: rest⟩ t =
      (readCommand ⟨file, line :: seen, rest⟩ t f.bracket.isParallel).andThen fun items s t =>
        readFrame (f.append items) s t := by
  have hstep : Nest.step ⟨f, [], none⟩ t ⟨file, seen.length + 1⟩ line =
      Nest.readCommand ⟨f, [], none⟩ t ⟨file, (line :: seen).length⟩ (Shell.firstLine line) := by
    unfold Nest.step
    simp only [hright, hleft, if_neg hline]
    rfl
  unfold readFrame
  rw [readNest_cons, hstep]
  exact readOn_readCommand ⟨f, [], none⟩ t (Shell.firstLine line) (line :: seen) rest

theorem readFrame_nil (f : Frame) (t : Table) : readFrame f ⟨file, seen, []⟩ t =
    ⟨⟨file, seen, []⟩, t, throw (.missingRightBracket ⟨file, seen.length⟩ f.bracket)⟩ := rfl

/-- **Recursion.** What the next line does to an open block: its closing bracket ends it and any other
one is an error; behind an opening bracket a block is read first, which joins the table; blank lines
and comments are passed over; and the items of a command join the block. -/
theorem readFrame_cons (f : Frame) (t : Table) : readFrame f ⟨file, seen, line :: rest⟩ t =
    match rightBracket? line with
    | some found =>
      ⟨⟨file, line :: seen, rest⟩, t, if found = f.bracket then pure f.block
        else throw (.mismatchedBracket ⟨file, seen.length + 1⟩ found f.bracket)⟩
    | none =>
      match leftBracket? line with
      | some b => (readBlock ⟨file, line :: seen, rest⟩ t b).andThen fun child s t =>
        readFrame (f.append [.block t.size]) s (t.push child)
      | none =>
        if isEmptyLine line ∨ isCommentLine line then readFrame f ⟨file, line :: seen, rest⟩ t
        else (readCommand ⟨file, line :: seen, rest⟩ t f.bracket.isParallel).andThen
          fun items s t => readFrame (f.append items) s t := by
  cases hright : rightBracket? line with
  | some found =>
    unfold readFrame
    rw [readNest_cons]
    unfold Nest.step
    simp only [hright]
    split_ifs <;> rfl
  | none =>
    cases hleft : leftBracket? line with
    | some b => exact readFrame_of_leftBracket? hleft
    | none =>
      dsimp only
      split_ifs with hline
      · unfold readFrame
        rw [readNest_cons]
        unfold Nest.step
        simp only [hright, hleft, if_pos hline]
        rfl
      · exact readFrame_of_command hright hleft hline

end Runbook.Document
