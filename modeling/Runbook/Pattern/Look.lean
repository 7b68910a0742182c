import Runbook.Pattern.WordChar

/-!
# Places in a text

Conditions on a place between two characters of a text, such as its start or the edge of a word.
-/

namespace Runbook.Pattern

/-- A condition on a place between two characters. -/
inductive Look where
  | textStart
  | textEnd
  | lineStart
  | lineEnd
  /-- Between a character of a word and another one. -/
  | boundary
  /-- Any other place. -/
  | notBoundary
  | wordStart
  | wordEnd
  /-- Not behind a character of a word. -/
  | wordStartHalf
  /-- Not before a character of a word. -/
  | wordEndHalf
  deriving DecidableEq, Repr

/-- Whether the character at a place of a text is of a kind; past the end there is none. -/
def charAt (text : Array Char) (p : Char → Bool) (i : Nat) : Bool :=
  (text[i]?).any p

/-- Whether the character before a place is of a kind. -/
def charBefore (text : Array Char) (p : Char → Bool) (i : Nat) : Bool :=
  0 < i && charAt text p (i - 1)

def Look.holds (l : Look) (text : Array Char) (i : Nat) : Bool :=
  let wordBefore := charBefore text isWordChar i
  let wordBehind := charAt text isWordChar i
  match l with
  | .textStart => i == 0
  | .textEnd => i == text.size
  | .lineStart => i == 0 || charBefore text (· == '\n') i
  | .lineEnd => i == text.size || charAt text (· == '\n') i
  | .boundary => wordBefore != wordBehind
  | .notBoundary => wordBefore == wordBehind
  | .wordStart => !wordBefore && wordBehind
  | .wordEnd => wordBefore && !wordBehind
  | .wordStartHalf => !wordBefore
  | .wordEndHalf => !wordBehind

end Runbook.Pattern
