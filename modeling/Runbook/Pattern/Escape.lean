import Runbook.Pattern.CharSet
import Runbook.Pattern.Look
import Runbook.Shell.Word

/-!
# Escapes in patterns

What a backslash and the characters behind it stand for: a character, a set of characters, or a
condition on a place. A letter or digit without a meaning of its own cannot be escaped.
-/

namespace Runbook.Pattern

/-- The number of some hexadecimal digits. -/
def hexNumber? (cs : List Char) : Option Nat := do
  let ds ← cs.mapM Shell.hexDigit?
  if ds.isEmpty then none else some (ds.foldl (fun v d => v * 16 + d) 0)

/-- The character of a number, if there is one. -/
def scalar? (n : Nat) : Option Char :=
  if n.isValidChar then some (Char.ofNat n) else none

/-- The character behind `\x`, `\u` or `\U`: a fixed number of digits, or digits in braces. -/
def hexEscape? (width : Nat) : List Char → Option (Char × List Char)
  | '\x7b' :: cs => do
    let digits := cs.takeWhile (· ≠ '\x7d')
    let _ :: rest := cs.dropWhile (· ≠ '\x7d') | none
    return (← scalar? (← hexNumber? digits), rest)
  | cs => do
    if (cs.take width).length < width then none
    return (← scalar? (← hexNumber? (cs.take width)), cs.drop width)

/-- What a backslash and the characters behind it mean, inside or outside a class. -/
inductive Escape where
  | char (c : Char)
  | set (s : CharSet)
  | look (l : Look)

/-- The places that `\b` and a word in braces behind it name. -/
def boundaryOf? (name : String) : Option Look :=
  match name with
  | "start" => some .wordStart
  | "end" => some .wordEnd
  | "start-half" => some .wordStartHalf
  | "end-half" => some .wordEndHalf
  | _ => none

/-- The escape behind `\b`, which may go on with a word in braces. -/
def boundaryEscape? : List Char → Option (Escape × List Char)
  | '\x7b' :: c :: cs =>
    if c.isAlpha ∨ c = '-' then do
      let name := (c :: cs).takeWhile fun d => d.isAlpha || d == '-'
      let '\x7d' :: rest := (c :: cs).drop name.length | none
      return (.look (← boundaryOf? (String.ofList name)), rest)
    else some (.look .boundary, '\x7b' :: c :: cs)
  | cs => some (.look .boundary, cs)

def escape? : List Char → Option (Escape × List Char)
  | [] => none
  | c :: cs =>
    match c with
    | 'd' => some (.set .digit, cs)
    | 'D' => some (.set (.compl .digit), cs)
    | 's' => some (.set .space, cs)
    | 'S' => some (.set (.compl .space), cs)
    | 'w' => some (.set .word, cs)
    | 'W' => some (.set (.compl .word), cs)
    | 'A' => some (.look .textStart, cs)
    | 'z' => some (.look .textEnd, cs)
    | 'b' => boundaryEscape? cs
    | 'B' => some (.look .notBoundary, cs)
    | '<' => some (.look .wordStart, cs)
    | '>' => some (.look .wordEnd, cs)
    | 'a' => some (.char '\x07', cs)
    | 'f' => some (.char '\x0c', cs)
    | 't' => some (.char '\t', cs)
    | 'n' => some (.char '\n', cs)
    | 'r' => some (.char '\r', cs)
    | 'v' => some (.char '\x0b', cs)
    | 'x' => (hexEscape? 2 cs).map fun (d, rest) => (.char d, rest)
    | 'u' => (hexEscape? 4 cs).map fun (d, rest) => (.char d, rest)
    | 'U' => (hexEscape? 8 cs).map fun (d, rest) => (.char d, rest)
    | _ => if c.toNat < 128 ∧ !c.isAlphanum then some (.char c, cs) else none

end Runbook.Pattern
