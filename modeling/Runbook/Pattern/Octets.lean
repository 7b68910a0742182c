import Runbook.Pattern.CodeSet

/-!
# Ranges of characters as ranges of octets

In UTF-8 a range of code points falls apart into pieces whose characters are, octet by octet, all
combinations of a few ranges of octets. `CodeSet.octetRanges` lists the pieces of a set in ascending
order.
-/

namespace Runbook.Pattern

/-- First and last octet of a range. -/
abbrev OctetRange := Nat × Nat

/-- The last code point with one octet, with two, and with three. -/
def lengthEnds : List Nat := [0x7F, 0x7FF, 0xFFFF]

/-- The last code point of the first block, of `size` code points, if a range begins within a block
or ends within another one. -/
def blockCut? (low high size : Nat) : Option Nat :=
  if low / size = high / size then none
  else if low % size ≠ 0 then some (low / size * size + (size - 1))
  else if high % size ≠ size - 1 then some (high / size * size - 1)
  else none

/-- Where a range has to be cut in two: where characters get longer, and where an octet does not
run through all its values. -/
def cut? (low high : Nat) : Option Nat :=
  (lengthEnds.find? fun n => low ≤ n && n < high).or <|
    if high ≤ 0x7F then none
    else [64, 64 * 64, 64 * 64 * 64].findSome? (blockCut? low high)

def octets (n : Nat) : List Nat :=
  (String.utf8EncodeChar (Char.ofNat n)).map UInt8.toNat

def pieces (low high : Nat) : List (List OctetRange) :=
  match cut? low high with
  | none => [(octets low).zip (octets high)]
  | some n =>
    if low ≤ n ∧ n < high then pieces low n ++ pieces (n + 1) high
    else [(octets low).zip (octets high)]
termination_by high - low

/-- The pieces of a set. -/
def CodeSet.octetRanges (s : CodeSet) : List (List OctetRange) :=
  s.ranges.flatMap fun (low, high) => pieces low high

end Runbook.Pattern
