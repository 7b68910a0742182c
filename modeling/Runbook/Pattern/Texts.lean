import Runbook.Pattern.Opening

/-!
# Patterns that are no more than texts

The openings of an expression without groups and places may all be whole. The expression is then a
choice between some texts, and a search can look for these texts as they are, whatever automaton the
expression stands for. It does so unless it is faster to look for the texts cut short.
-/

namespace Runbook.Pattern

namespace Opening

/-- The openings without those that begin with one before them: where such an opening is found, so is
the other one. -/
def preferred : List Opening → List Opening
  | [] => []
  | o :: os => o :: (preferred os).filter fun p => !o.octets.isPrefixOf p.octets

/-- The octets that all openings begin with. -/
def sharedOctets : List Opening → List UInt8
  | [] => []
  | o :: os => (os.map octets).foldl Regex.sharedStart o.octets

/-- ASCII characters that are found in most texts. -/
def frequentChars : String := "\n\r (),-./0129:_abcdefghilmnoprstuvxy|"

/-- An octet that is found in few texts. -/
def isRare (b : UInt8) : Bool :=
  b < 0x80 && !(Text.Utf8.encode frequentChars).contains b

/-- How long openings may be, and how many there may be before they are cut to this length. -/
def lengthLimits : List (Nat × Nat) := [(5, 10), (4, 10), (3, 64), (2, 64)]

/-- Openings cut to one length after the other while they are more than its limit. -/
def shorten : List (Nat × Nat) → List Opening → List Opening
  | [], os => os
  | (length, limit) :: more, os =>
    if os.length ≤ limit then os else shorten more (preferred (os.map (.cut length)))

/-- What a search looks for: one rare octet, or what all openings begin with if that is long, or if
it is short and they are many. Else openings that are whole are kept as they are, unless they can be
cut to a few that are not too short. -/
def sought (given : List Opening) : List Opening :=
  let os := preferred given
  let start := sharedOctets os
  if 1 < given.length ∧ start.length ≤ 3 ∧ start.head?.any isRare then
    mergeEqual (os.map (.cut 1))
  else
    let isFew := os.all (·.isWhole) && os.length ≤ 16
    let os :=
      if 4 < start.length ∨ (1 < start.length ∧ !isFew) then
        mergeEqual (os.map (.cut start.length))
      else os
    let short := shorten lengthLimits os
    if os.all (·.isWhole) ∧ short.any (·.octets.length ≤ 2) then os else short

end Opening

/-- No part of the expression is a group or a place. -/
def Regex.isPlain : Regex → Bool
  | .empty => true
  | .literal _ => true
  | .set _ => true
  | .look _ => false
  | .group _ _ => false
  | .repeated r _ _ _ => r.isPlain
  | .seq r s => r.isPlain && s.isPlain
  | .alt r s => r.isPlain && s.isPlain

/-- The texts between which the expression is a choice, if a search looks for them as they are. None
of them is empty. -/
def Regex.texts? (r : Regex) : Option (List String) := do
  if !r.isPlain then none
  let os := Opening.mergeEqual (← r.openings)
  if os.isEmpty ∨ os.any (·.octets.isEmpty) then none
  let os := Opening.sought os
  if os.all (·.isWhole) then os.mapM fun o => Text.Utf8.decode? o.octets else none

end Runbook.Pattern
