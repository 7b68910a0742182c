import Runbook.Pattern.Class
import Runbook.Pattern.NameChar

/-!
# Tokens of patterns

A pattern is cut into tokens before its groups are put together. A token is refused when its
construct is not closed, names an unknown escape, or holds a range or count that is out of order.
-/

namespace Runbook.Pattern

/-- Flags that a pattern can set: none leaves a flag as it is. -/
structure FlagChange where
  ignoreCase : Option Bool
  multiLine : Option Bool
  dotAll : Option Bool
  /-- Repetitions are lazy, and those marked as lazy are greedy. -/
  swapGreed : Option Bool
  deriving DecidableEq, Repr

/-- A part of a pattern that has no parts of its own. -/
inductive Token where
  /-- One character of a set, before flags, and how deeply classes are nested in it. -/
  | set (s : CharSet) (depth : Nat)
  | dot
  /-- `^`. -/
  | caret
  /-- `$`. -/
  | dollar
  | look (l : Look)
  /-- The start of a group, which is numbered unless it is only for its inside; with its name and
  the flags for its inside. -/
  | opening (numbered : Bool) (name : Option String) (change : Option FlagChange)
  | closing
  | bar
  /-- Flags from here to the end of the group. -/
  | flags (change : FlagChange)
  /-- Repeats what is before it; `isLazy` if it is marked so. -/
  | count (low : Nat) (high : Option Nat) (isLazy : Bool)
  deriving DecidableEq, Repr

def skipBlank (cs : List Char) : List Char := cs.dropWhile Text.isBlank

/-- The greatest count in a repetition. -/
def maxCount : Nat := 0xFFFFFFFF

/-- A decimal number with blanks around it. -/
def decimal? (cs : List Char) : Option (Nat × List Char) := do
  let cs := skipBlank cs
  let digits := cs.takeWhile Char.isDigit
  let n := digits.foldl (fun v d => v * 10 + (d.toNat - '0'.toNat)) 0
  if digits.isEmpty ∨ maxCount < n then none
  return (n, skipBlank (cs.drop digits.length))

/-- A repetition with the mark that may make it lazy. -/
def withLazy (low : Nat) (high : Option Nat) (cs : List Char) : Option (Token × List Char) :=
  match cs with
  | '?' :: rest => some (.count low high true, rest)
  | _ => some (.count low high false, cs)

/-- The counts of a repetition behind its opening brace. Blanks may stand around a number, but not in
place of one. -/
def counts? (cs : List Char) : Option (Token × List Char) := do
  let (low, rest) ← decimal? cs
  match rest with
  | '\x7d' :: rest => withLazy low (some low) rest
  | ',' :: rest =>
    match rest with
    | '\x7d' :: rest => withLazy low none rest
    | rest =>
      let (high, rest) ← decimal? rest
      let '\x7d' :: rest := rest | none
      if high < low then none
      withLazy low (some high) rest
  | _ => none

/-- A change of flags as it is read: the letters so far, and whether a `-` came. -/
structure FlagReading where
  change : FlagChange
  seen : List Char
  negative : Bool
  /-- The last character was the `-`. -/
  dangling : Bool

/-- One more flag; each may come once. -/
def FlagReading.flag? (f : FlagReading) (c : Char) : Option FlagReading :=
  let value := some !f.negative
  if f.seen.contains c then none
  else
    let f := { f with seen := c :: f.seen, dangling := false }
    match c with
    | 'i' => some { f with change := { f.change with ignoreCase := value } }
    | 'm' => some { f with change := { f.change with multiLine := value } }
    | 's' => some { f with change := { f.change with dotAll := value } }
    | 'U' => some { f with change := { f.change with swapGreed := value } }
    | 'u' => if f.negative then none else some f
    | _ => none

/-- The flags of a group behind `(?`, up to the `)` or `:` that ends them. -/
def flags? (f : FlagReading) : List Char → Option (Token × List Char)
  | [] => none
  | c :: cs =>
    if c = ')' then
      if f.dangling ∨ f.seen.isEmpty then none else some (.flags f.change, cs)
    else if c = ':' then
      if f.dangling then none else some (.opening false none (some f.change), cs)
    else if c = '-' then
      if f.negative then none else flags? { f with negative := true, dangling := true } cs
    else
      match f.flag? c with
      | some f => flags? f cs
      | none => none

/-- The name of a group, up to the `>` behind it. -/
def groupName? (cs : List Char) : Option (Token × List Char) := do
  let name := cs.takeWhile (· ≠ '>')
  let _ :: rest := cs.drop name.length | none
  if name.head?.any isNameStart ∧ name.all isNameChar then
    return (.opening true (some (String.ofList name)) none, rest)
  else none

/-- The start of a group behind its `(`. -/
def group? : List Char → Option (Token × List Char)
  | '?' :: 'P' :: '<' :: cs => groupName? cs
  | '?' :: '<' :: cs => groupName? cs
  | '?' :: cs => flags? ⟨⟨none, none, none, none⟩, [], false, false⟩ cs
  | cs => some (.opening true none none, cs)

/-- The token at the start of a pattern that is not empty. -/
def token? (c : Char) (cs : List Char) : Option (Token × List Char) :=
  match c with
  | '\\' =>
    (escape? cs).map fun (e, rest) =>
      (match e with
        | .char d => .set (.char d) 0
        | .set s => .set s 0
        | .look l => .look l, rest)
  | '.' => some (.dot, cs)
  | '^' => some (.caret, cs)
  | '$' => some (.dollar, cs)
  | '|' => some (.bar, cs)
  | '(' => group? cs
  | ')' => some (.closing, cs)
  | '[' => (class? cs).map fun (p, rest) => (.set p.set p.depth, rest)
  | '?' => withLazy 0 (some 1) cs
  | '*' => withLazy 0 none cs
  | '+' => withLazy 1 none cs
  | '\x7b' => counts? cs
  | _ => some (.set (.char c) 0, cs)

/-- The tokens of a pattern, at most `n`. -/
def tokensWithin? : Nat → List Char → Option (List Token)
  | _, [] => some []
  | 0, _ => none
  | n + 1, c :: cs => do
    let (t, rest) ← token? c cs
    return t :: (← tokensWithin? n rest)

def tokens? (pattern : String) : Option (List Token) :=
  tokensWithin? pattern.toList.length pattern.toList

end Runbook.Pattern
