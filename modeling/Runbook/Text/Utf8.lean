/-!
# UTF-8

A decoder that reads one octet at a time. Between characters it owes nothing; behind the first
octet of a longer character it knows how many octets are still owed, and between which bounds the
next one must lie. The bounds rule out overlong forms, surrogates and numbers above `0x10FFFF`.
-/

namespace Runbook.Text.Utf8

/-- The octets of a character that are still owed, the bounds of the next one, and the number that
the octets so far make up. -/
structure State where
  owed : Nat
  low : UInt8
  high : UInt8
  value : Nat
  deriving DecidableEq, Repr

def State.start : State := ⟨0, 0x80, 0xBF, 0⟩

/-- The state behind the first octet of a character. -/
def first (b : UInt8) : Option State :=
  let n := b.toNat
  if b ≤ 0x7F then some ⟨0, 0x80, 0xBF, n⟩
  else if 0xC2 ≤ b ∧ b ≤ 0xDF then some ⟨1, 0x80, 0xBF, n - 0xC0⟩
  else if b = 0xE0 then some ⟨2, 0xA0, 0xBF, 0⟩
  else if b = 0xED then some ⟨2, 0x80, 0x9F, n - 0xE0⟩
  else if 0xE1 ≤ b ∧ b ≤ 0xEF then some ⟨2, 0x80, 0xBF, n - 0xE0⟩
  else if b = 0xF0 then some ⟨3, 0x90, 0xBF, 0⟩
  else if 0xF1 ≤ b ∧ b ≤ 0xF3 then some ⟨3, 0x80, 0xBF, n - 0xF0⟩
  else if b = 0xF4 then some ⟨3, 0x80, 0x8F, n - 0xF0⟩
  else none

/-- The state behind one more octet, or none where no text has this octet. -/
def State.step (s : State) (b : UInt8) : Option State :=
  if s.owed = 0 then first b
  else if s.low ≤ b ∧ b ≤ s.high then
    some ⟨s.owed - 1, 0x80, 0xBF, s.value * 64 + (b.toNat - 0x80)⟩
  else none

/-- The state behind some octets, or none where no text starts with them. -/
def State.run (s : State) : List UInt8 → Option State
  | [] => some s
  | b :: bs => (s.step b).bind (·.run bs)

/-- The characters of the octets from a state on, unless an octet is wrong or missing. -/
def decodeFrom (s : State) : List UInt8 → Option (List Char)
  | [] => if s.owed = 0 then some [] else none
  | b :: bs =>
    match s.step b with
    | none => none
    | some t =>
      if t.owed = 0 then (decodeFrom .start bs).map (Char.ofNat t.value :: ·) else decodeFrom t bs

/-- The text with these octets, if there is one. -/
def decode? (bs : List UInt8) : Option String :=
  (decodeFrom .start bs).map String.ofList

/-- Whether some text starts with these octets: none is wrong, but the last character may be cut. -/
def isStart (bs : List UInt8) : Bool :=
  (State.start.run bs).isSome

def encode (s : String) : List UInt8 :=
  s.toList.flatMap String.utf8EncodeChar

theorem State.run_append (s : State) (xs ys : List UInt8) :
    s.run (xs ++ ys) = (s.run xs).bind (·.run ys) := by
  induction xs generalizing s with
  | nil => rfl
  | cons b xs ih =>
    simp only [List.cons_append, run]
    cases s.step b with
    | none => rfl
    | some t => exact ih t

end Runbook.Text.Utf8
