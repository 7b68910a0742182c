import Runbook.Pattern.CaseVariant
import Runbook.Pattern.WordChar
import Runbook.Text.Blank

/-!
# Sets of characters

The sets that a pattern can name, as expressions. Which code points such a set has hangs on whether
case counts: where it does not, a set has all case variants of its members, and a complement is
taken after that.
-/

namespace Runbook.Pattern

/-- An operation on two sets. -/
inductive SetOp where
  | union
  | inter
  | diff
  | symmDiff
  deriving DecidableEq, Repr

def SetOp.codes : SetOp → CodeSet → CodeSet → CodeSet
  | .union => .union
  | .inter => .inter
  | .diff => .diff
  | .symmDiff => .symmDiff

/-- A set of characters. -/
inductive CharSet where
  | none
  /-- All characters between two, both included. -/
  | range (low high : Char)
  | digit
  | space
  | word
  | compl (s : CharSet)
  | op (o : SetOp) (s t : CharSet)
  deriving DecidableEq, Repr

def blanks : CodeSet :=
  .below 0x3001 fun n => Text.isBlank (Char.ofNat n)

namespace CharSet

def char (c : Char) : CharSet := .range c c

def unions (ss : List CharSet) : CharSet :=
  ss.foldr (.op .union) .none

/-- The case variants as well, if case does not count. -/
def fold (ignoreCase : Bool) (s : CodeSet) : CodeSet :=
  if ignoreCase then s.caseless else s

/-- The code points of the set, of which some case variants may be missing. -/
def members (ignoreCase : Bool) : CharSet → CodeSet
  | .none => .empty
  | .range low high => .range low high
  | .digit => digits
  | .space => blanks
  | .word => wordChars
  | .compl s => (fold ignoreCase (s.members ignoreCase)).compl
  | .op .union s t => (s.members ignoreCase).union (t.members ignoreCase)
  | .op o s t =>
    o.codes (fold ignoreCase (s.members ignoreCase)) (fold ignoreCase (t.members ignoreCase))

def codes (s : CharSet) (ignoreCase : Bool) : CodeSet :=
  fold ignoreCase (s.members ignoreCase)

/-- The ASCII set with a name, as ranges. -/
def ascii? (name : String) : Option CharSet :=
  let of (rs : List (Char × Char)) := some (unions (rs.map fun r => .range r.1 r.2))
  match name with
  | "alnum" => of [('0', '9'), ('A', 'Z'), ('a', 'z')]
  | "alpha" => of [('A', 'Z'), ('a', 'z')]
  | "ascii" => of [('\x00', '\x7f')]
  | "blank" => of [('\t', '\t'), (' ', ' ')]
  | "cntrl" => of [('\x00', '\x1f'), ('\x7f', '\x7f')]
  | "digit" => of [('0', '9')]
  | "graph" => of [('!', '~')]
  | "lower" => of [('a', 'z')]
  | "print" => of [(' ', '~')]
  | "punct" => of [('!', '/'), (':', '@'), ('[', '\x60'), ('\x7b', '~')]
  | "space" => of [('\t', '\r'), (' ', ' ')]
  | "upper" => of [('A', 'Z')]
  | "word" => of [('0', '9'), ('A', 'Z'), ('_', '_'), ('a', 'z')]
  | "xdigit" => of [('0', '9'), ('A', 'F'), ('a', 'f')]
  | _ => Option.none

end CharSet

end Runbook.Pattern
