import Runbook.Pattern.Regex
import Runbook.Text.Utf8

/-!
# How matches begin

Every match of an expression begins with one of its openings, unless these are too many to be
listed. They come in the order in which the expression tries them. An opening is whole if a match
that begins with it in this way ends behind it.

Openings are few and short. A long one is cut. An expression that has too many is not followed where
it stands behind others, and where it stands for itself it has no list.
-/

namespace Runbook.Pattern

/-- The octets at the beginning of a match. -/
structure Opening where
  octets : List UInt8
  /-- The match ends behind them. -/
  isWhole : Bool
  deriving DecidableEq, Repr

namespace Opening

/-- The empty text as a match. -/
def nothing : Opening := ⟨[], true⟩

/-- Some characters as a match. -/
def ofChars (cs : List Char) : Opening := ⟨cs.flatMap String.utf8EncodeChar, true⟩

/-- At most `n` octets; an opening that has more is not whole then. -/
def cut (n : Nat) (o : Opening) : Opening :=
  if o.octets.length ≤ n then o else ⟨o.octets.take n, false⟩

/-- The octets of a match that may go on behind them. -/
def unfinished (o : Opening) : Opening := ⟨o.octets, false⟩

/-- A whole opening with another one behind it. -/
def append (o p : Opening) : Opening := ⟨o.octets ++ p.octets, p.isWhole⟩

/-- Neighbours with the same octets as one, which is whole if both are. -/
def mergeEqual : List Opening → List Opening
  | [] => []
  | o :: os =>
    match mergeEqual os with
    | p :: ps =>
      if o.octets = p.octets then ⟨o.octets, o.isWhole && p.isWhole⟩ :: ps else o :: p :: ps
    | [] => [o]

end Opening

/-- The openings of an expression in order; none if they are too many. -/
abbrev Openings := Option (List Opening)

namespace Openings

/-- The most openings of an expression. -/
def maxOpenings : Nat := 250

/-- The most octets of an opening. -/
def maxOctets : Nat := 100

/-- The most members of a set that are openings. -/
def maxMembers : Nat := 10

/-- The most rounds of a repetition that are followed. -/
def maxRounds : Nat := 10

def single (o : Opening) : Openings :=
  some [o.cut maxOctets]

/-- How many code points a set has, where the surrogates count if the characters on both sides of
them are members. -/
def extent (s : CodeSet) : Nat :=
  let surrogates := if s.contains 0xD7FF ∧ s.contains 0xE000 then 0x800 else 0
  s.ranges.foldr (fun (low, high) n => high + 1 - low + n) surrogates

def ofSet (s : CodeSet) : Openings :=
  if maxMembers < extent s then none
  else
    some <| s.ranges.flatMap fun (low, high) =>
      (List.range' low (high + 1 - low)).map fun n => .ofChars [Char.ofNat n]

/-- The openings, none of which is whole. -/
def unfinished (os : Openings) : Openings :=
  os.map fun os => os.map .unfinished

/-- The openings of a choice between two expressions. Before they are too many, all are cut to four
octets. -/
def choice (os ps : Openings) : Openings := do
  let os ← os
  let ps ← ps
  if os.length + ps.length ≤ maxOpenings then return Opening.mergeEqual (os ++ ps)
  let os := Opening.mergeEqual (os.map (.cut 4))
  let ps := Opening.mergeEqual (ps.map (.cut 4))
  if os.length + ps.length ≤ maxOpenings then return Opening.mergeEqual (os ++ ps)
  none

/-- The whole ones of some openings with those of another expression behind them. If they are too
many, a match goes on in an unknown way, and where one is empty it may begin with anything. -/
def cross (os : List Opening) (ps : Openings) : Openings :=
  match ps.filter fun ps => os.length * ps.length ≤ maxOpenings with
  | some ps =>
    let joined := os.flatMap fun o => if o.isWhole then ps.map o.append else [o]
    some ((Opening.mergeEqual joined).map (.cut maxOctets))
  | none =>
    if os.any (·.octets.isEmpty) then none else some (os.map .unfinished)

/-- The openings of two expressions, one behind the other. If none of the first is whole, the second
has no say in them. -/
def sequence (os ps : Openings) : Openings := do
  let os ← os
  if os.any (·.isWhole) then cross os ps else return os

/-- Some openings with `n` rounds of others behind them. -/
def rounds (ps : Openings) : Nat → Openings → Openings
  | 0, os => os
  | n + 1, os => rounds ps n (sequence os ps)

def repetition (os : Openings) (low : Nat) (high : Option Nat) (greedy : Bool) : Openings :=
  let nothing := single .nothing
  if low = 0 then
    let os := if high = some 1 then os else unfinished os
    if greedy then choice os nothing else choice nothing os
  else
    let os := rounds os (min low maxRounds) nothing
    if high = some low ∧ low ≤ maxRounds then os else unfinished os

end Openings

/-- Where an expression stands. -/
inductive Site where
  | alone
  /-- In a sequence, behind parts with these openings. -/
  | behind (os : Openings)
  /-- In a choice, beside branches with these openings. -/
  | beside (os : Openings)

/-- The openings at a site with those of one more part or branch. -/
def Site.add : Site → Openings → Openings
  | .alone, ps => ps
  | .behind os, ps => .sequence os ps
  | .beside os, ps => .choice os ps

/-- The openings at a site with those of an expression. A sequence goes on from part to part, and a
choice from branch to branch. -/
def Regex.openingsAt : Regex → Site → Openings
  | .empty, site => site.add (.single .nothing)
  | .literal cs, site => site.add (.single (.ofChars cs))
  | .set s, site => site.add (.ofSet s)
  | .look _, site => site.add (.single .nothing)
  | .group _ r, site => site.add (r.openingsAt .alone)
  | .repeated r low high greedy, site =>
    site.add (.repetition (r.openingsAt .alone) low high greedy)
  | .seq r s, .behind os => s.openingsAt (.behind (.sequence os (r.openingsAt .alone)))
  | .seq r s, site =>
    site.add (s.openingsAt (.behind (.sequence (.single .nothing) (r.openingsAt .alone))))
  | .alt r s, .beside os => s.openingsAt (.beside (.choice os (r.openingsAt .alone)))
  | .alt r s, site => site.add (s.openingsAt (.beside (.choice (some []) (r.openingsAt .alone))))

def Regex.openings (r : Regex) : Openings :=
  r.openingsAt .alone

end Runbook.Pattern
