import Runbook.Pipeline.Basic
import Runbook.Text.Lines

/-!
# The lines of a document, with a cursor

The cursor starts before the first line, and reading moves it to the next one.
-/

namespace Runbook.Document

/-- The lines of a named document: those read, the one under the cursor first, and the rest. -/
structure Source where
  file : String
  seen : List String
  rest : List String
  deriving DecidableEq, Repr

namespace Source

/-- A text as a document, the cursor before its first line. -/
def ofText (file text : String) : Source :=
  ⟨file, [], Text.lines text⟩

/-- The line under the cursor, empty before the first one. -/
def current (s : Source) : String :=
  s.seen.headD ""

/-- The position of the line under the cursor: lines count from one. -/
def pos (s : Source) : Position :=
  ⟨s.file, s.seen.length⟩

/-- The document with the cursor on the next line, if there is one. -/
def next? (s : Source) : Option Source :=
  match s.rest with
  | [] => none
  | line :: rest => some ⟨s.file, line :: s.seen, rest⟩

/-- All lines, in order. -/
def lines (s : Source) : List String :=
  s.seen.reverse ++ s.rest

theorem lines_next? {s t : Source} (h : s.next? = some t) : t.lines = s.lines := by
  unfold next? at h
  split at h
  · simp at h
  · next hr =>
    obtain rfl := Option.some.inj h
    simp [lines, hr]

theorem line_next? {s t : Source} (h : s.next? = some t) : t.pos.line = s.pos.line + 1 := by
  unfold next? at h
  split at h
  · simp at h
  · obtain rfl := Option.some.inj h
    rfl

end Source

end Runbook.Document
