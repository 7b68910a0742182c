import Runbook.Pattern.CodeSet
import Runbook.Pattern.Look

/-!
# Regular expressions

Regular expressions in a plain form: neighbouring characters are one literal, a sequence or a choice
has no sequence or choice of its own kind as a part, a choice between single characters is a set,
and what all branches of a choice start with stands in front of it. `sequence`, `choice` and
`repetition` put expressions in this form together and keep to it.
-/

namespace Runbook.Pattern

/-- A regular expression. -/
inductive Regex where
  /-- The empty text. -/
  | empty
  /-- These characters, at least one. -/
  | literal (cs : List Char)
  /-- One character of a set. -/
  | set (s : CodeSet)
  /-- The empty text, at some places. -/
  | look (l : Look)
  /-- A group, with its number in the pattern. -/
  | group (number : Nat) (r : Regex)
  /-- At least `low` matches, one behind the other, and at most `high` if that is given. A greedy
  repetition tries more matches first, which has no say in whether a text matches. -/
  | repeated (r : Regex) (low : Nat) (high : Option Nat) (greedy : Bool)
  /-- One part and the parts behind it. -/
  | seq (r s : Regex)
  /-- One branch or the other branches. -/
  | alt (r s : Regex)
  deriving DecidableEq, Repr

namespace Regex

/-! ## What an expression can match -/

/-- No match has a character, for the reason that no part could have one. -/
def isWidthless : Regex → Bool
  | .empty => true
  | .literal _ => false
  | .set _ => false
  | .look _ => true
  | .group _ r => r.isWidthless
  | .repeated r _ high _ => high.isSome && r.isWidthless
  | .seq r s => r.isWidthless && s.isWidthless
  | .alt r s => r.isWidthless && s.isWidthless

/-- The fewest characters of a match; none where some part that is needed has no match. -/
def minLength? : Regex → Option Nat
  | .empty => some 0
  | .literal cs => some cs.length
  | .set s => if s = .empty then none else some 1
  | .look _ => some 0
  | .group _ r => r.minLength?
  | .repeated r low _ _ => r.minLength?.map (low * ·)
  | .seq r s => do return (← r.minLength?) + (← s.minLength?)
  | .alt r s => do return min (← r.minLength?) (← s.minLength?)

/-- Every match starts at the start of the text. -/
def isAnchoredStart : Regex → Bool
  | .look l => l == .textStart
  | .group _ r => r.isAnchoredStart
  | .repeated r low _ _ => low != 0 && r.isAnchoredStart
  | .seq r s => r.isAnchoredStart || (r.isWidthless && s.isAnchoredStart)
  | .alt r s => r.isAnchoredStart && s.isAnchoredStart
  | _ => false

/-- Every match ends at the end of the text. -/
def isAnchoredEnd : Regex → Bool
  | .look l => l == .textEnd
  | .group _ r => r.isAnchoredEnd
  | .repeated r low _ _ => low != 0 && r.isAnchoredEnd
  | .seq r s => s.isAnchoredEnd || (s.isWidthless && r.isAnchoredEnd)
  | .alt r s => r.isAnchoredEnd && s.isAnchoredEnd
  | _ => false

/-! ## Sets and sequences -/

/-- One character of a set, which is a literal if it has just one member. -/
def ofSet (s : CodeSet) : Regex :=
  match s.single? with
  | some c => .literal [c]
  | none => .set s

/-- The parts of an expression, one behind the other. -/
def parts : Regex → List Regex
  | .empty => []
  | .seq r s => r :: s.parts
  | r => [r]

def ofParts : List Regex → Regex
  | [] => .empty
  | [r] => r
  | r :: rs => .seq r (ofParts rs)

/-- One part in front of others; two literals make one. -/
def glue (r : Regex) (rs : List Regex) : List Regex :=
  match r, rs with
  | .literal cs, .literal ds :: rs => .literal (cs ++ ds) :: rs
  | r, rs => r :: rs

/-- Some expressions one behind the other. -/
def sequence (rs : List Regex) : Regex :=
  ofParts ((rs.flatMap parts).foldr glue [])

/-! ## Choices -/

def branches : Regex → List Regex
  | .alt r s => r :: s.branches
  | r => [r]

def ofBranches : List Regex → Regex
  | [] => .set .empty
  | [r] => r
  | r :: rs => .alt r (ofBranches rs)

/-- The character of a literal that has just one. -/
def char? : Regex → Option Char
  | .literal [c] => some c
  | _ => none

def set? : Regex → Option CodeSet
  | .set s => some s
  | _ => none

/-- The branches as one set, if they are all single characters, or all sets. -/
def oneSet? (rs : List Regex) : Option Regex :=
  match rs.mapM char? with
  | some cs => some (ofSet (.ofCodes (cs.map Char.toNat)))
  | none => (rs.mapM set?).map fun ss => ofSet (ss.foldl .union .empty)

/-- The choice between expressions whose first parts are kept where they are. -/
def flatChoice (rs : List Regex) : Regex :=
  match rs.flatMap branches with
  | [r] => r
  | rs => (oneSet? rs).getD (ofBranches rs)

/-- What two lists have in common at their start. -/
def sharedStart {α : Type} [DecidableEq α] : List α → List α → List α
  | x :: xs, y :: ys => if x = y then x :: sharedStart xs ys else []
  | _, _ => []

/-- The parts of an expression that has at least two. -/
def seq? : Regex → Option (List Regex)
  | .seq r s => some (r :: s.parts)
  | _ => none

/-- The shared start of all branches in front of the choice between what is behind it. -/
def factored? (rs : List Regex) : Option Regex := do
  let p :: ps ← rs.mapM seq? | none
  match ps.foldl sharedStart p with
  | [] => none
  | start =>
    let rests := (p :: ps).map fun q => sequence (q.drop start.length)
    return sequence (start ++ [flatChoice rests])

/-- The choice between some expressions. -/
def choice (rs : List Regex) : Regex :=
  match rs.flatMap branches with
  | [r] => r
  | rs => ((oneSet? rs).or (factored? rs)).getD (ofBranches rs)

/-! ## Repetitions -/

/-- An expression repeated. Two rounds without a character are as good as one. -/
def repetition (r : Regex) (low : Nat) (high : Option Nat) (greedy : Bool) : Regex :=
  let (low, high) :=
    if r.isWidthless then (min low 1, some (min (high.getD 1) 1)) else (low, high)
  if high = some 0 then .empty
  else if low = 1 ∧ high = some 1 then r
  else .repeated r low high greedy

end Regex

end Runbook.Pattern
