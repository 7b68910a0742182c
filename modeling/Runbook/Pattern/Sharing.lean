import Runbook.Pattern.Octets
import Std.Data.HashMap

/-!
# States that a set of characters takes

A matcher that reads octets needs a small automaton for a set of characters. Equal states are
shared, as far as a table with few slots remembers them: a key has one slot, given by its hash, and
takes the place of the key before it.

States have numbers in the order in which they are made, and the numbers are part of the keys.
-/

namespace Runbook.Pattern

/-- What some states take: their number, and their transitions by kind. -/
structure Footprint where
  states : Nat
  /-- Transitions to another state on a range of octets, in states that have any number of them. -/
  ranges : Nat
  /-- Transitions without an octet, in states that have any number of them. -/
  branches : Nat
  deriving DecidableEq, Repr

namespace Footprint

def empty : Footprint := ⟨0, 0, 0⟩

/-- The octets that a footprint takes in memory: 32 for each state, 8 more for each transition on
octets and 4 more for each one without. -/
def octets (f : Footprint) : Nat :=
  32 * f.states + 8 * f.ranges + 4 * f.branches

def addStates (n : Nat) (f : Footprint) : Footprint :=
  { f with states := f.states + n }

def addRanges (n : Nat) (f : Footprint) : Footprint :=
  { f with ranges := f.ranges + n }

def addBranches (n : Nat) (f : Footprint) : Footprint :=
  { f with branches := f.branches + n }

end Footprint

/-! ## A table with few slots -/

/-- The FNV-1a hash of some numbers, in 64 bits. -/
def fnv (ns : List Nat) : UInt64 :=
  ns.foldl (fun h n => (h ^^^ n.toUInt64) * 1099511628211) 14695981039346656037

/-- States by their keys, of which each slot keeps one. -/
structure Slots where
  count : Nat
  kept : Std.HashMap Nat (List Nat × Nat)

namespace Slots

def new (count : Nat) : Slots := ⟨count, ∅⟩

/-- The slot of a key. -/
def slot (t : Slots) (key : List Nat) : Nat :=
  (fnv key).toNat % t.count

/-- The state of a key, if its slot has not been taken by another one. -/
def find? (t : Slots) (key : List Nat) : Option Nat :=
  match t.kept[t.slot key]? with
  | some (k, state) => if k = key then some state else none
  | none => none

/-- The table after a state was made for a key. -/
def insert (t : Slots) (key : List Nat) (state : Nat) : Slots :=
  { t with kept := t.kept.insert (t.slot key) (key, state) }

end Slots

/-- The states so far, with the table of those that can be shared. -/
structure Sharing where
  footprint : Footprint
  table : Slots

/-- A state that is made unless the table has it, with `ranges` transitions of its own; its number
comes second. -/
def Sharing.state (s : Sharing) (key : List Nat) (ranges : Nat) : Sharing × Nat :=
  match s.table.find? key with
  | some n => (s, n)
  | none =>
    let n := s.footprint.states
    (⟨(s.footprint.addStates 1).addRanges ranges, s.table.insert key n⟩, n)

/-! ## Octets from first to last

The pieces come in ascending order, so that all states but those on the way to the last piece are
finished, and can be shared from the end. -/

/-- A state on the way to the last piece: the transitions that are finished, three numbers each, and
the range of the one that is not. -/
structure OpenState where
  done : List Nat
  pending : Option OctetRange

/-- The state with its last transition led to a state. -/
def OpenState.lead (o : OpenState) (next : Nat) : OpenState :=
  match o.pending with
  | some (low, high) => ⟨o.done ++ [low, high, next], none⟩
  | none => o

/-- The last `n` states of a way, which lies deepest first, finished and led to a state. -/
def finish : Nat → Sharing → List OpenState → Nat → Sharing × List OpenState
  | n + 1, s, o :: way, next =>
    let key := (o.lead next).done
    let (s, next) := s.state key (key.length / 3)
    finish n s way next
  | 0, s, o :: way, next => (s, o.lead next :: way)
  | _, s, [], _ => (s, [])

/-- How many octets of a piece are already on the way, from its start. -/
def sharedOctets (way : List OpenState) (piece : List OctetRange) : Nat :=
  ((way.reverse.zip piece).takeWhile fun (o, r) => o.pending == some r).length

/-- The way to the next piece, behind which lies the state `target`. -/
def addPiece (target : Nat) (s : Sharing × List OpenState) (piece : List OctetRange) :
    Sharing × List OpenState :=
  let (s, way) := s
  let shared := sharedOctets way piece
  let (s, way) := finish (way.length - (shared + 1)) s way target
  match way, piece.drop shared with
  | o :: way, r :: rs =>
    (s, (rs.map fun r => ⟨[], some r⟩).reverse ++ { o with pending := some r } :: way)
  | way, _ => (s, way)

/-- The footprint with the states of a set that is read from the first octet. -/
def forwardSet (s : CodeSet) (f : Footprint) : Footprint :=
  let target := f.states
  let start : Sharing × List OpenState := (⟨f.addStates 1, .new 10000⟩, [⟨[], none⟩])
  let (s, way) := s.octetRanges.foldl (addPiece target) start
  (finish way.length s way target).1.footprint

/-! ## Octets from last to first -/

/-- The footprint with the states of a set that is read from the last octet: one way for each piece,
of which the first steps can be shared. -/
def backwardSet (s : CodeSet) (f : Footprint) : Footprint :=
  let joint := f.states + 1
  let piece (s : Sharing) (rs : List OctetRange) : Sharing :=
    (rs.foldl (fun (s, next) (low, high) => s.state [next, low, high] 0) (s, joint)).1
  let rs := s.octetRanges
  (rs.foldl piece ⟨f.addStates 2, .new 1000⟩).footprint.addBranches rs.length

/-- The footprint with the states of a set of ASCII characters. -/
def asciiSet (s : CodeSet) (f : Footprint) : Footprint :=
  (f.addStates 2).addRanges s.ranges.length

end Runbook.Pattern
