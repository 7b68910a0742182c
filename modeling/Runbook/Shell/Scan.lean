import Runbook.Text.Blank
import Runbook.Shell.Word

/-!
# Splitting a command into statements and words

The scan reads a command one character at a time. Its state says in which kind of quoting it
stands and what it has gathered; `State.step` takes one more character, and may refuse it;
`State.finish` says what the text read so far amounts to. Blanks separate words, an unquoted `;`
or line feed separates statements, and `|`, `||`, `&` and `&&` are words of their own. A `#` at
the start of a word opens a comment up to the line feed.
-/

namespace Runbook.Shell

/-- Why no continuation of a text can be a command. -/
inductive Fault where
  /-- A `;` with no word before it. -/
  | emptyStatement
  /-- A backslash in double quotes before a character that no escape has. -/
  | unsupportedEscape (c : Char)
  /-- A numeric escape without its two digits. -/
  | missingDigits (r : Radix)
  deriving DecidableEq, Repr

/-- The name of the digits of a base. -/
def Radix.digitName : Radix → String
  | .hexadecimal => "hexadecimal"
  | .octal => "octal"

def Fault.message : Fault → String
  | .emptyStatement => "unexpected ';' without a command"
  | .unsupportedEscape c => "unsupported escape sequence '\\" ++ String.singleton c ++ "'"
  | .missingDigits r =>
    "'\\" ++ String.singleton r.letter ++ "' must be followed by two " ++ r.digitName ++ " digits"

/-- A fault and the byte offset of the character to blame. -/
structure Malformed where
  offset : Nat
  fault : Fault
  deriving DecidableEq, Repr

/-- What a text amounts to as a command. -/
inductive Outcome where
  /-- A command string with these statements. -/
  | complete (statements : List Statement)
  /-- The text ends inside quotes or behind a bare backslash. -/
  | unfinished
  /-- No text that starts like this is a command string. -/
  | malformed (m : Malformed)
  deriving DecidableEq, Repr

/-- Where the scan stands. -/
inductive Mode where
  /-- Outside quotes. -/
  | bare
  /-- In a comment. -/
  | comment
  /-- Behind an `&` that is an operator or starts a redirection. -/
  | ampersand
  /-- Behind a `|` that may be doubled. -/
  | bar
  /-- Behind a bare backslash. -/
  | escape
  /-- In single quotes, with the characters so far, last one first. -/
  | single (rev : List Char)
  /-- In double quotes, with the pieces so far, last one first. -/
  | double (rev : List Piece)
  /-- Behind a backslash in double quotes; the backslash is at `start`. -/
  | quotedEscape (start : Nat) (rev : List Piece)
  /-- In a numeric escape, before its first digit. -/
  | firstDigit (start : Nat) (rev : List Piece) (r : Radix)
  /-- In a numeric escape, before its second digit. -/
  | secondDigit (start : Nat) (rev : List Piece) (r : Radix) (high : Char)
  deriving DecidableEq, Repr

/-- What a scan has read: every list has its last element first. -/
structure State where
  mode : Mode
  /-- Bytes read. -/
  offset : Nat
  /-- Characters of the current statement. -/
  text : List Char
  /-- Segments of the current word. -/
  word : List Segment
  /-- Finished words of the current statement. -/
  words : List Word
  /-- Finished statements. -/
  statements : List Statement
  deriving DecidableEq, Repr

namespace State

def start : State :=
  { mode := .bare, offset := 0, text := [], word := [], words := [], statements := [] }

/-- The character joins the text of the statement. -/
def advance (s : State) (c : Char) : State :=
  { s with offset := s.offset + c.utf8Size, text := c :: s.text }

/-- Stands in another kind of quoting. -/
def enter (s : State) (m : Mode) : State :=
  { s with mode := m }

/-- A segment joins the word, outside quotes. -/
def push (s : State) (x : Segment) : State :=
  { s with mode := .bare, word := x :: s.word }

/-- A word joins the statement, outside quotes. -/
def pushWord (s : State) (w : Word) : State :=
  { s with mode := .bare, words := w :: s.words }

/-- The word ends, if there is one. -/
def endWord (s : State) : State :=
  if s.word.isEmpty then s else { s with word := [], words := ⟨s.word.reverse⟩ :: s.words }

/-- The statement ends, if there is one; its text is the trimmed characters since the last
separator. -/
def endStatement (s : State) : State :=
  if s.words.isEmpty then s
  else
    { s with
      words := []
      statements := ⟨String.ofList (Text.trim s.text.reverse), s.words.reverse⟩ :: s.statements }

/-- The statement ends at the separator `c`, and a new one starts behind it. -/
def separate (s : State) (c : Char) : State :=
  { s.endStatement with mode := .bare, offset := s.offset + c.utf8Size, text := [] }

/-- The word ends in `<` or `>`, so that an `&` behind it belongs to a redirection. -/
def afterAngle (s : State) : Bool :=
  match s.word with
  | .bare c :: _ => c = '<' ∨ c = '>'
  | .escaped c :: _ => c = '<' ∨ c = '>'
  | _ => false

/-- One character outside quotes. -/
def stepBare (s : State) (c : Char) : Except Malformed State :=
  if c = ' ' ∨ c = '\t' ∨ c = '\r' then .ok ((s.endWord.enter .bare).advance c)
  else if c = '\n' then .ok (s.endWord.separate c)
  else if c = ';' then
    if s.endWord.words.isEmpty then .error ⟨s.offset, .emptyStatement⟩
    else .ok (s.endWord.separate c)
  else if c = '|' then .ok ((s.endWord.enter .bar).advance c)
  else if c = '&' then
    if s.afterAngle then .ok ((s.push (.bare c)).advance c)
    else .ok ((s.enter .ampersand).advance c)
  else if c = '\x27' then .ok ((s.enter (.single [])).advance c)
  else if c = '\x22' then .ok ((s.enter (.double [])).advance c)
  else if c = '\\' then .ok ((s.enter .escape).advance c)
  else if c = '#' ∧ s.word.isEmpty then .ok ((s.enter .comment).advance c)
  else .ok ((s.push (.bare c)).advance c)

/-- The character behind a backslash in double quotes. -/
def stepQuotedEscape (s : State) (start : Nat) (rev : List Piece) (c : Char) :
    Except Malformed State :=
  match Control.ofLetter? c with
  | some k => .ok ((s.enter (.double (.control k :: rev))).advance c)
  | none =>
    if c = Radix.hexadecimal.letter then
      .ok ((s.enter (.firstDigit start rev .hexadecimal)).advance c)
    else if c = Radix.octal.letter then
      .ok ((s.enter (.firstDigit start rev .octal)).advance c)
    else .error ⟨start, .unsupportedEscape c⟩

def step (s : State) (c : Char) : Except Malformed State :=
  match s.mode with
  | .bare => s.stepBare c
  | .comment => if c = '\n' then s.stepBare c else .ok (s.advance c)
  | .ampersand =>
    if c = '>' then (s.push (.bare '&')).stepBare c
    else if c = '&' then .ok ((s.endWord.pushWord (.ofBare ['&', '&'])).advance c)
    else (s.endWord.pushWord (.ofBare ['&'])).stepBare c
  | .bar =>
    if c = '|' then .ok ((s.pushWord (.ofBare ['|', '|'])).advance c)
    else (s.pushWord (.ofBare ['|'])).stepBare c
  | .escape => .ok ((s.push (.escaped c)).advance c)
  | .single rev =>
    if c = '\x27' then .ok ((s.push (.single rev.reverse)).advance c)
    else .ok ((s.enter (.single (c :: rev))).advance c)
  | .double rev =>
    if c = '\x22' then .ok ((s.push (.double rev.reverse)).advance c)
    else if c = '\\' then .ok ((s.enter (.quotedEscape s.offset rev)).advance c)
    else .ok ((s.enter (.double (.char c :: rev))).advance c)
  | .quotedEscape start rev => s.stepQuotedEscape start rev c
  | .firstDigit start rev r =>
    if (r.digit? c).isSome then .ok ((s.enter (.secondDigit start rev r c)).advance c)
    else .error ⟨start, .missingDigits r⟩
  | .secondDigit start rev r high =>
    if (r.digit? c).isSome then .ok ((s.enter (.double (.numeric r high c :: rev))).advance c)
    else .error ⟨start, .missingDigits r⟩

/-- The characters one after the other, up to the first that is refused. -/
def run (s : State) : List Char → Except Malformed State
  | [] => .ok s
  | c :: cs =>
    match s.step c with
    | .ok t => t.run cs
    | .error m => .error m

/-- The statements read when the text ends here, or none inside quotes or behind a backslash. -/
def finish? (s : State) : Option (List Statement) :=
  match s.mode with
  | .bare | .comment => some s.endWord.endStatement.statements.reverse
  | .ampersand => some (s.endWord.pushWord (.ofBare ['&'])).endStatement.statements.reverse
  | .bar => some (s.pushWord (.ofBare ['|'])).endStatement.statements.reverse
  | _ => none

/-- What the text read amounts to if it ends here. -/
def finish (s : State) : Outcome :=
  match s.finish? with
  | some statements => .complete statements
  | none => .unfinished

theorem run_append (s : State) (xs ys : List Char) :
    s.run (xs ++ ys) = (s.run xs).bind (·.run ys) := by
  induction xs generalizing s with
  | nil => rfl
  | cons c xs ih =>
    simp only [List.cons_append, run]
    cases s.step c with
    | ok t => exact ih t
    | error m => rfl

end State

/-- What a text amounts to as a command, character by character. -/
def scan (cs : List Char) : Outcome :=
  match State.start.run cs with
  | .ok s => s.finish
  | .error m => .malformed m

/-- What a text amounts to as a command. -/
def tokenize (s : String) : Outcome :=
  scan s.toList

/-- The longest start of the text that takes at most `n` bytes. -/
def firstBytes (n : Nat) : List Char → List Char
  | [] => []
  | c :: cs => if c.utf8Size ≤ n then c :: firstBytes (n - c.utf8Size) cs else []

/-- A row with a caret under the character at a byte offset of `input`, in the column that this
character has on its own line, and the message behind it. -/
def marker (offset : Nat) (message input : String) : String :=
  let row := (firstBytes offset input.toList).reverse.takeWhile (· ≠ '\n')
  String.ofList (List.replicate row.length ' ') ++ "^ " ++ message

/-- The marker row of a fault in `input`. -/
def Malformed.marker (m : Malformed) (input : String) : String :=
  Shell.marker m.offset m.fault.message input

end Runbook.Shell
