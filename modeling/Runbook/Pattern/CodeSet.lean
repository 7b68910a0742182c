/-!
# Sets of code points

A set of code points is kept as the ascending code points at which membership changes: outside of
the set before the first one, inside from there to the second, and so on. An operation on two sets
is one walk over both.
-/

namespace Runbook.Pattern

/-- A set of code points, as the ascending places where membership changes. -/
structure CodeSet where
  changes : Array Nat
  deriving DecidableEq, Repr

namespace CodeSet

/-! ## Walks over two sets -/

/-- `x` in front of `xs` if a value changes there from `b` to `c`. -/
def changeAt (x : Nat) (b c : Bool) (xs : List Nat) : List Nat :=
  if b = c then xs else x :: xs

/-- Where `op` of two memberships changes, from places on at which they are `b` and `c`. -/
def merge (op : Bool → Bool → Bool) : Bool → Bool → List Nat → List Nat → List Nat
  | _, _, [], [] => []
  | b, c, x :: xs, [] => changeAt x (op b c) (op (!b) c) (merge op (!b) c xs [])
  | b, c, [], y :: ys => changeAt y (op b c) (op b !c) (merge op b (!c) [] ys)
  | b, c, x :: xs, y :: ys =>
    if x < y then changeAt x (op b c) (op (!b) c) (merge op (!b) c xs (y :: ys))
    else if y < x then changeAt y (op b c) (op b !c) (merge op b (!c) (x :: xs) ys)
    else changeAt x (op b c) (op (!b) !c) (merge op (!b) (!c) xs ys)
termination_by _ _ xs ys => xs.length + ys.length

/-! ## Sets -/

/-- The set with these changes, in ascending order. -/
def ofChanges (xs : List Nat) : CodeSet := ⟨xs.toArray⟩

def empty : CodeSet := ⟨#[]⟩

/-- The code points of characters: all but the surrogates. -/
def scalars : CodeSet := ⟨#[0, 0xD800, 0xE000, 0x110000]⟩

/-- The members that an operation on the memberships of two sets leaves. -/
def combine (op : Bool → Bool → Bool) (s t : CodeSet) : CodeSet :=
  ofChanges (merge op false false s.changes.toList t.changes.toList)

def union : CodeSet → CodeSet → CodeSet := combine (· || ·)

def inter : CodeSet → CodeSet → CodeSet := combine (· && ·)

def diff : CodeSet → CodeSet → CodeSet := combine fun b c => b && !c

/-- The members of just one of two sets. -/
def symmDiff : CodeSet → CodeSet → CodeSet := combine (· != ·)

/-- All other characters. -/
def compl (s : CodeSet) : CodeSet := scalars.diff s

def range (low high : Char) : CodeSet :=
  scalars.inter ⟨#[low.toNat, high.toNat + 1]⟩

/-- The members of some ranges, which are in ascending order and do not touch. -/
def ofRanges (rs : Array (Nat × Nat)) : CodeSet :=
  ⟨rs.flatMap fun (low, high) => #[low, high + 1]⟩

/-- The changes of a set with one more member that is not above any other. -/
def withFirst (n : Nat) : List Nat → List Nat
  | [] => [n, n + 1]
  | x :: xs =>
    if x = n then x :: xs else if x = n + 1 then n :: xs else n :: (n + 1) :: x :: xs

/-- The set of some code points. -/
def ofCodes (ns : List Nat) : CodeSet :=
  ofChanges (ns.mergeSort.foldr withFirst [])

/-- The set of the code points below a bound that have a property. -/
def below (bound : Nat) (p : Nat → Bool) : CodeSet :=
  ofCodes ((List.range bound).filter p)

/-- How many of some ascending numbers are at most `n`: at least `low` and at most `high`. -/
def rank (xs : Array Nat) (n low high : Nat) : Nat :=
  if low < high then
    let middle := (low + high) / 2
    if (xs[middle]?).any (· ≤ n) then rank xs n (middle + 1) high else rank xs n low middle
  else low
termination_by high - low

/-- Whether a code point is in the set: an odd number of changes is behind it. -/
def contains (s : CodeSet) (n : Nat) : Bool :=
  rank s.changes n 0 s.changes.size % 2 == 1

/-- First and last member of each range, from a list of changes. -/
def rangesOf : List Nat → List (Nat × Nat)
  | low :: next :: xs => (low, next - 1) :: rangesOf xs
  | _ => []

/-- First and last member of each range of the set. -/
def ranges (s : CodeSet) : List (Nat × Nat) :=
  rangesOf s.changes.toList

/-- The only member, if there is just one. -/
def single? (s : CodeSet) : Option Char :=
  match s.ranges with
  | [(low, high)] => if low = high then some (Char.ofNat low) else none
  | _ => none

end CodeSet

end Runbook.Pattern
