/-!
# Words of a command

A word is a sequence of segments: bare characters, escaped characters and quoted spans. Each
segment has a source, the characters it is written with, and a value, the characters it stands
for. The sources of a word's segments make up its text, their values make up what the word means.
-/

namespace Runbook.Shell

/-- The control characters that an escape inside double quotes can name by a letter. -/
inductive Control where
  | tab
  | carriageReturn
  | lineFeed
  | backspace
  deriving DecidableEq, Repr

def Control.letter : Control → Char
  | .tab => 't'
  | .carriageReturn => 'r'
  | .lineFeed => 'n'
  | .backspace => 'b'

def Control.char : Control → Char
  | .tab => '\t'
  | .carriageReturn => '\r'
  | .lineFeed => '\n'
  | .backspace => '\x08'

/-- The escape with the letter `c`, if there is one. -/
def Control.ofLetter? (c : Char) : Option Control :=
  if c = 't' then some .tab
  else if c = 'r' then some .carriageReturn
  else if c = 'n' then some .lineFeed
  else if c = 'b' then some .backspace
  else none

@[simp] theorem Control.ofLetter?_letter (k : Control) : Control.ofLetter? k.letter = some k := by
  cases k <;> rfl

/-- The base of the digits in a numeric escape: `\x` takes two hexadecimal digits, `\0` two octal
ones. -/
inductive Radix where
  | hexadecimal
  | octal
  deriving DecidableEq, Repr

def Radix.letter : Radix → Char
  | .hexadecimal => 'x'
  | .octal => '0'

def Radix.base : Radix → Nat
  | .hexadecimal => 16
  | .octal => 8

/-- The value of a digit below sixteen, written in ASCII in either case. -/
def hexDigit? (c : Char) : Option Nat :=
  if c.isDigit then some (c.toNat - '0'.toNat)
  else if 'a' ≤ c ∧ c ≤ 'f' then some (c.toNat - 'a'.toNat + 10)
  else if 'A' ≤ c ∧ c ≤ 'F' then some (c.toNat - 'A'.toNat + 10)
  else none

/-- The value of a digit of the base. -/
def Radix.digit? (r : Radix) (c : Char) : Option Nat :=
  (hexDigit? c).filter (· < r.base)

/-- The value of a character as a digit, nought when it is none. -/
def Radix.digit (r : Radix) (c : Char) : Nat :=
  (r.digit? c).getD 0

/-- What stands at one place between double quotes. -/
inductive Piece where
  /-- A character that stands for itself. -/
  | char (c : Char)
  /-- A named control character. -/
  | control (k : Control)
  /-- A character given by its number, the digits as written. -/
  | numeric (r : Radix) (high low : Char)
  deriving DecidableEq, Repr

def Piece.source : Piece → List Char
  | .char c => [c]
  | .control k => ['\\', k.letter]
  | .numeric r high low => ['\\', r.letter, high, low]

def Piece.value : Piece → Char
  | .char c => c
  | .control k => k.char
  | .numeric r high low => Char.ofNat (r.digit high * r.base + r.digit low)

/-- A part of a word with one way of quoting. -/
inductive Segment where
  /-- A character that stands for itself. -/
  | bare (c : Char)
  /-- A character behind a backslash. -/
  | escaped (c : Char)
  /-- A span in single quotes. -/
  | single (span : List Char)
  /-- A span in double quotes. -/
  | double (span : List Piece)
  deriving DecidableEq, Repr

def Segment.source : Segment → List Char
  | .bare c => [c]
  | .escaped c => ['\\', c]
  | .single span => '\x27' :: span ++ ['\x27']
  | .double span => '\x22' :: span.flatMap Piece.source ++ ['\x22']

def Segment.value : Segment → List Char
  | .bare c => [c]
  | .escaped c => [c]
  | .single span => span
  | .double span => span.map Piece.value

/-- A word: its segments in order. -/
structure Word where
  segments : List Segment
  deriving DecidableEq, Repr

namespace Word

def source (w : Word) : List Char :=
  w.segments.flatMap Segment.source

def value (w : Word) : List Char :=
  w.segments.flatMap Segment.value

/-- The text of the word, quoting kept. -/
def text (w : Word) : String :=
  String.ofList w.source

/-- The word of some characters that stand for themselves. -/
def ofBare (cs : List Char) : Word :=
  ⟨cs.map .bare⟩

@[simp] theorem source_ofBare (cs : List Char) : (ofBare cs).source = cs := by
  induction cs with
  | nil => rfl
  | cons c cs ih => simpa [ofBare, source, Segment.source] using ih

@[simp] theorem value_ofBare (cs : List Char) : (ofBare cs).value = cs := by
  induction cs with
  | nil => rfl
  | cons c cs ih => simpa [ofBare, value, Segment.value] using ih

end Word

/-- One command invocation: its text, and its words with their quoting. -/
structure Statement where
  text : String
  words : List Word
  deriving DecidableEq, Repr

namespace Statement

def wordTexts (s : Statement) : List String :=
  s.words.map Word.text

/-- The text of the command word, empty when there is no word. -/
def head (s : Statement) : String :=
  s.wordTexts.head?.getD ""

/-- The texts of the words behind the command word. -/
def args (s : Statement) : List String :=
  s.wordTexts.drop 1

/-- A statement that is one lone bracket. -/
def isBracket (s : Statement) : Bool :=
  match s.wordTexts with
  | [w] => ["\x7b", "\x7d", "\x7b\x7b", "\x7d\x7d"].contains w
  | _ => false

end Statement

end Runbook.Shell
