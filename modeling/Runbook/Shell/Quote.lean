import Runbook.Text.Blank
import Runbook.Shell.Word

/-!
# Quoting values and reading them back

`posix` writes any value as one word: bare when that is safe, in double quotes with escapes when
the value holds control characters, in single quotes otherwise. `unquote` reads a word's text
back. On text that is no word it is lenient: an unclosed quote ends with the text, and an escape
that it does not know stays as written.
-/

namespace Runbook.Shell

/-- A way to write a value into a command. -/
abbrev Encoder := String → String

/-- A character that never needs quoting. -/
def isPlain (c : Char) : Bool :=
  c.isAlphanum || ['_', '-', '.', '/', ':', '@', '%', '+', ',', '='].contains c

/-- The digit for a number below sixteen, in lower case. -/
def hexDigit (n : Nat) : Char :=
  if n < 10 then Char.ofNat ('0'.toNat + n) else Char.ofNat ('a'.toNat + (n - 10))

/-- The character given by its number in two hexadecimal digits. -/
def Piece.hex (c : Char) : Piece :=
  .numeric .hexadecimal (hexDigit (c.toNat / 16)) (hexDigit (c.toNat % 16))

/-- The piece that stands for a character between double quotes. -/
def Piece.ofChar (c : Char) : Piece :=
  if c = '\t' then .control .tab
  else if c = '\r' then .control .carriageReturn
  else if c = '\n' then .control .lineFeed
  else if c = '\x08' then .control .backspace
  else if c = '\x22' ∨ c = '\\' ∨ c = '$' ∨ c = '\x60' ∨ Text.isControl c then .hex c
  else .char c

/-- Single-quoted spans for the text, an escaped quote for each quote in it; `rev` is the span so
far, last character first. -/
def singleSpans (rev : List Char) : List Char → List Segment
  | [] => [.single rev.reverse]
  | c :: cs =>
    if c = '\x27' then .single rev.reverse :: .escaped c :: singleSpans [] cs
    else singleSpans (c :: rev) cs

/-- The word that a value is written as. -/
def Word.ofValue (cs : List Char) : Word :=
  if cs.isEmpty then ⟨[.single []]⟩
  else if cs.all isPlain then .ofBare cs
  else if cs.any Text.isControl then ⟨[.double (cs.map Piece.ofChar)]⟩
  else ⟨singleSpans [] cs⟩

/-- A value as one word of a command. -/
def posix : Encoder :=
  fun value => (Word.ofValue value.toList).text

/-- Where the reading of a word's text stands. -/
inductive Quoting where
  | bare
  | single
  /-- In double quotes, with the number of digits that an escape has already taken. -/
  | double (taken : Nat)
  deriving DecidableEq, Repr

/-- The digits, at most `n`, at the start of the text, as values. -/
def Radix.digits (r : Radix) : Nat → List Char → List Nat
  | 0, _ => []
  | _, [] => []
  | n + 1, c :: cs =>
    match r.digit? c with
    | some d => d :: r.digits n cs
    | none => []

/-- The character whose number has these digits. -/
def Radix.charOf (r : Radix) (ds : List Nat) : Char :=
  Char.ofNat (ds.foldl (fun v d => v * r.base + d) 0)

/-- The value of the rest of a word's text. -/
def unquoteFrom : Quoting → List Char → List Char
  | _, [] => []
  | .bare, c :: cs =>
    if c = '\x27' then unquoteFrom .single cs
    else if c = '\x22' then unquoteFrom (.double 0) cs
    else if c = '\\' then
      match cs with
      | [] => []
      | d :: ds => d :: unquoteFrom .bare ds
    else c :: unquoteFrom .bare cs
  | .single, c :: cs =>
    if c = '\x27' then unquoteFrom .bare cs else c :: unquoteFrom .single cs
  | .double (n + 1), _ :: cs => unquoteFrom (.double n) cs
  | .double 0, c :: cs =>
    if c = '\x22' then unquoteFrom .bare cs
    else if c = '\\' then
      match cs with
      | [] => ['\\']
      | e :: ds =>
        match Control.ofLetter? e with
        | some k => k.char :: unquoteFrom (.double 0) ds
        | none =>
          if e = Radix.hexadecimal.letter then
            let taken := Radix.hexadecimal.digits 2 ds
            Radix.hexadecimal.charOf taken :: unquoteFrom (.double taken.length) ds
          else if e = Radix.octal.letter then
            let taken := Radix.octal.digits 2 ds
            Radix.octal.charOf taken :: unquoteFrom (.double taken.length) ds
          else '\\' :: e :: unquoteFrom (.double 0) ds
    else c :: unquoteFrom (.double 0) cs

/-- The value that a word's text stands for. -/
def unquote (word : String) : String :=
  String.ofList (unquoteFrom .bare word.toList)

end Runbook.Shell
