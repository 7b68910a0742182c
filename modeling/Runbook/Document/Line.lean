import Runbook.Pipeline.Block
import Runbook.Text.Blank

/-!
# What a line of a document is

Each recogniser says on its own whether a line has its form; `classify` asks them in a fixed order
and takes every other line for a command. Blanks around a line never matter.
-/

namespace Runbook.Document

/-- What follows `lead` in the text, when the text starts with it. -/
def after? : List Char → List Char → Option (List Char)
  | [], cs => some cs
  | _ :: _, [] => none
  | l :: lead, c :: cs => if l = c then after? lead cs else none

/-- The text between two characters, when it stands between them. -/
def between? (opening closing : Char) : List Char → Option (List Char)
  | [] => none
  | c :: cs => if c = opening ∧ cs.getLast? = some closing then some cs.dropLast else none

/-- An identifier at the start of the text, and what follows it: a letter or `_`, then characters
of the given kind. -/
def identifier? (isTail : Char → Bool) : List Char → Option (List Char × List Char)
  | [] => none
  | c :: cs =>
    if c.isAlpha ∨ c = '_' then some (c :: cs.takeWhile isTail, cs.dropWhile isTail) else none

/-- A character in the name of a procedure or the key of an attribute. -/
def isNameChar (c : Char) : Bool :=
  c.isAlphanum || ['_', '.', '-'].contains c

/-- A character in the name of a variable. -/
def isVariableChar (c : Char) : Bool :=
  c.isAlphanum || c == '_'

/-- A line of blanks. -/
def isEmptyLine (line : String) : Bool :=
  (Text.trim line.toList).isEmpty

/-- A line whose first character is `#`. -/
def isCommentLine (line : String) : Bool :=
  (Text.trimStart line.toList).head? = some '#'

/-- A comment line that starts with `#@`. -/
def isAttributeLine (line : String) : Bool :=
  (after? ['#', '@'] (Text.trimStart line.toList)).isSome

/-- Key and value of a line `#@ key: value`; the value may be empty. -/
def attribute? (line : String) : Option (String × String) := do
  let rest ← after? ['#', '@'] (Text.trim line.toList)
  let key := Text.trim (rest.takeWhile (· ≠ ':'))
  let _ :: value := rest.dropWhile (· ≠ ':') | none
  if key ≠ [] ∧ key.all isNameChar then
    some (String.ofList key, String.ofList (Text.trim value))
  else none

/-- The opening bracket that makes up a text. -/
def openingOf? (cs : List Char) : Option Bracket :=
  if cs = Bracket.sequential.opening.toList then some .sequential
  else if cs = Bracket.parallel.opening.toList then some .parallel
  else none

/-- The closing bracket that makes up a text. -/
def closingOf? (cs : List Char) : Option Bracket :=
  if cs = Bracket.sequential.closing.toList then some .sequential
  else if cs = Bracket.parallel.closing.toList then some .parallel
  else none

/-- The opening bracket that stands alone on a line. -/
def leftBracket? (line : String) : Option Bracket :=
  openingOf? (Text.trim line.toList)

/-- The closing bracket that stands alone on a line. -/
def rightBracket? (line : String) : Option Bracket :=
  closingOf? (Text.trim line.toList)

/-- A text without the quotes or angle brackets around it. -/
def unwrap (cs : List Char) : List Char :=
  (between? '\x22' '\x22' cs <|> between? '\x27' '\x27' cs <|> between? '<' '>' cs).getD cs

/-- The file that a line `include file` names. -/
def includeTarget? (line : String) : Option String := do
  let rest ← after? "include".toList (Text.trim line.toList)
  let c ← rest.head?
  if Text.isBlank c then
    let target := unwrap (Text.trim rest)
    if target.isEmpty then none else some (String.ofList target)
  else none

/-- The name in a header `name()`, and the opening bracket behind it on the same line. -/
def header? (line : String) : Option (String × Option Bracket) := do
  let (name, rest) ← identifier? isNameChar (Text.trim line.toList)
  let rest ← after? ['('] (Text.trimStart rest)
  let rest ← after? [')'] (Text.trimStart rest)
  let rest := Text.trim rest
  if rest.isEmpty then some (String.ofList name, none)
  else
    let b ← openingOf? rest
    some (String.ofList name, some b)

/-- Name and value of a line `name = value`. -/
def assignment? (line : String) : Option (String × String) := do
  let (name, rest) ← identifier? isVariableChar (Text.trim line.toList)
  let value ← after? ['='] (Text.trimStart rest)
  some (String.ofList name, String.ofList (Text.trim value))

/-- What a line is. -/
inductive LineKind where
  /-- `include file`. -/
  | include (target : String)
  /-- A procedure header, with the bracket on the same line. -/
  | header (name : String) (bracket : Option Bracket)
  | left (b : Bracket)
  | right (b : Bracket)
  | empty
  /-- `#@ key: value`, well formed or not. -/
  | attribute
  /-- Any other comment line. -/
  | comment
  /-- `name = value`. -/
  | variable (name value : String)
  /-- Anything else. -/
  | command
  deriving DecidableEq, Repr

/-- The first form that fits a line, in the order of the constructors. -/
def classify (line : String) : LineKind :=
  match includeTarget? line with
  | some target => .include target
  | none =>
  match header? line with
  | some (name, b) => .header name b
  | none =>
  match leftBracket? line with
  | some b => .left b
  | none =>
  match rightBracket? line with
  | some b => .right b
  | none =>
  if isEmptyLine line then .empty
  else if isAttributeLine line then .attribute
  else if isCommentLine line then .comment
  else
  match assignment? line with
  | some (name, value) => .variable name value
  | none => .command

end Runbook.Document
