import Runbook.Pattern.Regex
import Runbook.Pattern.Token

/-!
# Putting the groups of a pattern together

The tokens of a pattern are read one by one over a stack of open groups. Flags hold from where they
stand to the end of their group. Groups, choices, sequences and repetitions may be nested only so
far, whatever the expression they come to.
-/

namespace Runbook.Pattern

/-- The flags in force. -/
structure Flags where
  ignoreCase : Bool := false
  multiLine : Bool := false
  dotAll : Bool := false
  swapGreed : Bool := false
  deriving DecidableEq, Repr

def Flags.change (f : Flags) (c : FlagChange) : Flags :=
  ⟨c.ignoreCase.getD f.ignoreCase, c.multiLine.getD f.multiLine, c.dotAll.getD f.dotAll,
    c.swapGreed.getD f.swapGreed⟩

/-- A part of a pattern: its expression, and how far its own parts are nested. -/
structure Part where
  regex : Regex
  depth : Nat
  /-- Flags are a part that cannot be repeated. -/
  isFlags : Bool

namespace Part

def leaf (r : Regex) : Part := ⟨r, 0, false⟩

/-- Some parts as one, which is nested deeper than they are unless there is just one. -/
def join (of : List Regex → Regex) (ps : List Part) : Part :=
  match ps with
  | [] => leaf .empty
  | [p] => p
  | ps => ⟨of (ps.map (·.regex)), (ps.map (·.depth)).foldl max 0 + 1, false⟩

/-- A part inside of another one. -/
def wrap (f : Regex → Regex) (p : Part) : Part :=
  ⟨f p.regex, p.depth + 1, false⟩

end Part

/-- The deepest nesting of the parts of a pattern. -/
def maxDepth : Nat := 250

/-- An open group: the number it has, if any, the flags in force, the branches before the last bar
and the parts of the current branch, both last first. -/
structure Group where
  number : Option Nat
  flags : Flags
  branches : List Part
  parts : List Part

namespace Group

/-- A group just opened. -/
def new (number : Option Nat) (f : Flags) : Group := ⟨number, f, [], []⟩

/-- The current branch as one part. -/
def branch (g : Group) : Part :=
  .join .sequence g.parts.reverse

/-- What the group holds, as one part. -/
def inside (g : Group) : Part :=
  .join .choice (g.branch :: g.branches).reverse

/-- The group as a part of the group around it. -/
def close (g : Group) : Part :=
  match g.number with
  | some n => g.inside.wrap (.group n)
  | none => g.inside.wrap id

def add (g : Group) (p : Part) : Group :=
  { g with parts := p :: g.parts }

def addLeaf (g : Group) (r : Regex) : Group :=
  g.add (.leaf r)

def bar (g : Group) : Group :=
  { g with branches := g.branch :: g.branches, parts := [] }

def change (g : Group) (c : FlagChange) : Group :=
  { g with flags := g.flags.change c, parts := ⟨.empty, 0, true⟩ :: g.parts }

/-- The last part repeated, if there is one to repeat. -/
def count? (g : Group) (low : Nat) (high : Option Nat) (isLazy : Bool) : Option Group :=
  match g.parts with
  | p :: parts =>
    if p.isFlags then none
    else
      let greedy := isLazy == g.flags.swapGreed
      some { g with parts := p.wrap (.repetition · low high greedy) :: parts }
  | [] => none

/-- A set under the flags in force. -/
def setUnder (g : Group) (s : CharSet) : Regex :=
  .ofSet (s.codes g.flags.ignoreCase)

end Group

/-- The innermost open group, those around it, the names that groups have, and how many groups have
a number. -/
structure Groups where
  inner : Group
  outer : List Group
  names : List String
  numbered : Nat

namespace Groups

def start : Groups := ⟨.new none {}, [], [], 0⟩

/-- A group opened within the innermost one. -/
def opened (s : Groups) (numbered : Bool) (f : Flags) : Groups :=
  let n := s.numbered + numbered.toNat
  ⟨.new (if numbered then some n else none) f, s.inner :: s.outer, s.names, n⟩

/-- One more token. -/
def read? (s : Groups) : Token → Option Groups
  | .set c depth =>
    some { s with inner := s.inner.add ⟨s.inner.setUnder c, depth, false⟩ }
  | .dot =>
    let others : CharSet := if s.inner.flags.dotAll then .none else .char '\n'
    some { s with inner := s.inner.addLeaf (.ofSet ((CharSet.compl others).codes false)) }
  | .caret =>
    let l : Look := if s.inner.flags.multiLine then .lineStart else .textStart
    some { s with inner := s.inner.addLeaf (.look l) }
  | .dollar =>
    let l : Look := if s.inner.flags.multiLine then .lineEnd else .textEnd
    some { s with inner := s.inner.addLeaf (.look l) }
  | .look l => some { s with inner := s.inner.addLeaf (.look l) }
  | .opening numbered name change =>
    let flags := match change with
      | some c => s.inner.flags.change c
      | none => s.inner.flags
    match name with
    | some x =>
      if s.names.contains x then none
      else some { s.opened numbered flags with names := x :: s.names }
    | none => some (s.opened numbered flags)
  | .closing =>
    match s.outer with
    | [] => none
    | g :: gs => some { s with inner := g.add s.inner.close, outer := gs }
  | .bar => some { s with inner := s.inner.bar }
  | .flags c => some { s with inner := s.inner.change c }
  | .count low high isLazy =>
    (s.inner.count? low high isLazy).map fun g => { s with inner := g }

/-- The expression when the pattern ends here. -/
def finish? (s : Groups) : Option Regex :=
  match s.outer with
  | [] =>
    let p := s.inner.inside
    if p.depth ≤ maxDepth then some p.regex else none
  | _ => none

end Groups

/-- The regular expression that a pattern stands for, if it is well formed. -/
def Regex.ofPattern? (pattern : String) : Option Regex := do
  let tokens ← tokens? pattern
  let s ← tokens.foldlM Groups.read? .start
  s.finish?

end Runbook.Pattern
