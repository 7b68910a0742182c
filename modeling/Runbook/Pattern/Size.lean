import Runbook.Pattern.Regex
import Runbook.Pattern.Sharing

/-!
# The size of a regular expression

A regular expression stands for an automaton that reads octets, from first to last or from last to
first. A repetition takes its states once for each round, so a short pattern can stand for a large
automaton; an expression is too large if the automaton of one of the two directions is.

All ways out of an expression lead to one state behind it, so what an expression takes does not hang
on what is behind it, but for the sharing of equal states within a set.
-/

namespace Runbook.Pattern

/-- The direction in which an automaton reads. -/
inductive Direction where
  | forward
  | backward
  deriving DecidableEq, Repr

/-- The most octets that an automaton may take. -/
def sizeLimit : Nat := 10 * 1024 * 1024

/-- Whether an automaton takes more octets than it may. -/
def Footprint.isTooLarge (f : Footprint) : Bool :=
  sizeLimit < f.octets

/-- The same states `n` times, or as often as it takes to be too large. -/
def rounds (add : Footprint → Footprint) : Nat → Footprint → Footprint
  | 0, f => f
  | n + 1, f => if f.isTooLarge then f else rounds add n (add f)

/-! ## Choices between literals -/

/-- Texts in the order of a choice, cut where one ends here. What is behind such an end is tried only
after it, so it has states of its own. -/
def layers : List (List Nat) → List (List (List Nat))
  | [] => [[]]
  | [] :: ts => [] :: layers ts
  | t :: ts =>
    match layers ts with
    | l :: ls => (t :: l) :: ls
    | [] => [[t]]

/-- The rests of the texts that go on with the same number, for each number. -/
def byFirst (ts : List (List Nat)) : List (List (List Nat)) :=
  let firsts := (ts.filterMap List.head?).eraseDups
  firsts.map fun n => (ts.filter fun t => t.head? == some n).map List.tail

/-- The footprint of one layer: a state with one range, or with many. -/
def layerFootprint (groups : Nat) (f : Footprint) : Footprint :=
  match groups with
  | 0 => f
  | 1 => f.addStates 1
  | n => (f.addStates 1).addRanges n

/-- The states of a tree of texts no longer than `n`, all of which lead to one state behind them. -/
def treeFootprint : Nat → List (List Nat) → Footprint → Footprint
  | 0, _, f => f
  | n + 1, ts, f =>
    if ts.all List.isEmpty then f
    else
      let ls := (layers ts).map byFirst
      -- More ends before the first text that goes on are as good as one.
      let leading := (ls.takeWhile List.isEmpty).length
      let ls := if 1 < leading then ls.drop (leading - 1) else ls
      let f := (f.addStates 1).addBranches ((ls.filter (!·.isEmpty)).length + (ls.length - 1))
      ls.foldl (fun f l => l.foldl (fun f ts => treeFootprint n ts f) (layerFootprint l.length f)) f

def literalOctets (cs : List Char) : List Nat :=
  cs.flatMap fun c => octets c.toNat

/-- The texts of a choice that has nothing but literals. -/
def Regex.literals? : Regex → Option (List (List Char))
  | .literal cs => some [cs]
  | .alt (.literal cs) s => s.literals?.map (cs :: ·)
  | _ => none

/-- The footprint with the states of a choice between literals. -/
def literalsFootprint (d : Direction) (css : List (List Char)) (f : Footprint) : Footprint :=
  let ts := css.map fun cs =>
    match d with
    | .forward => literalOctets cs
    | .backward => (literalOctets cs).reverse
  treeFootprint ((ts.map List.length).foldl max 0 + 1) ts (f.addStates 1)

/-! ## Expressions -/

def setFootprint (d : Direction) (s : CodeSet) (f : Footprint) : Footprint :=
  if s.ranges.all fun (_, high) => high ≤ 0x7F then asciiSet s f
  else
    match d with
    | .forward => forwardSet s f
    | .backward => backwardSet s f

mutual

def Regex.footprint (d : Direction) : Regex → Footprint → Footprint
  | .empty, f => f.addStates 1
  | .literal cs, f => f.addStates (literalOctets cs).length
  | .set s, f => setFootprint d s f
  | .look _, f => f.addStates 1
  | .group _ r, f =>
    match d with
    | .forward => (r.footprint d (f.addStates 1)).addStates 1
    | .backward => r.footprint d f
  | .repeated r low high _, f =>
    match low, high with
    | 0, some 1 => ((r.footprint d (f.addStates 1)).addStates 1).addBranches 2
    | 0, none =>
      if r.minLength?.any (0 < ·) then (r.footprint d (f.addStates 1)).addBranches 2
      else ((r.footprint d f).addStates 3).addBranches 4
    | low, none => ((rounds (r.footprint d) low f).addStates 1).addBranches 2
    | low, some high =>
      let must := if low = 0 then f.addStates 1 else rounds (r.footprint d) low f
      if low = high then must
      else
        rounds (fun f => (r.footprint d (f.addStates 1)).addBranches 2) (high - low)
          (must.addStates 1)
  | .seq r s, f =>
    match d with
    | .forward => s.footprint d (r.footprint d f)
    | .backward => r.footprint d (s.footprint d f)
  | .alt r s, f =>
    match (Regex.alt r s).literals? with
    | some css => literalsFootprint d css f
    | none =>
      let f := r.footprint d f
      match s with
      | .alt t u => u.branchFootprint d (((t.footprint d f).addStates 2).addBranches 2)
      | s => ((s.footprint d f).addStates 2).addBranches 2

/-- The footprint with the states of further branches of a choice. -/
def Regex.branchFootprint (d : Direction) : Regex → Footprint → Footprint
  | .alt r s, f => s.branchFootprint d ((r.footprint d f).addBranches 1)
  | r, f => (r.footprint d f).addBranches 1

end

/-- The footprint of a whole pattern. A match may start anywhere unless it is tied to the end from
which it is read. -/
def Regex.wholeFootprint (r : Regex) (d : Direction) : Footprint :=
  let f := Footprint.empty
  let tied := match d with
    | .forward => r.isAnchoredStart
    | .backward => r.isAnchoredEnd
  let start := if tied then f.addStates 1 else ((f.addStates 3).addRanges 1).addBranches 2
  ((Regex.group 0 r).footprint d start).addStates 1

/-- Whether the automaton of an expression is too large in some direction. -/
def Regex.isTooLarge (r : Regex) : Bool :=
  (r.wholeFootprint .forward).isTooLarge || (r.wholeFootprint .backward).isTooLarge

end Runbook.Pattern
