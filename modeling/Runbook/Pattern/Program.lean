import Runbook.Pattern.Regex

/-!
# Programs that match

A regular expression becomes a program of steps, each of which names the steps behind it by their
addresses. A text is searched by following all steps at once that can be reached at a place, so the
work for one character is at most that of one pass over the program.
-/

namespace Runbook.Pattern

/-- A step of a program. -/
inductive Step where
  /-- Reads one character. -/
  | char (c : Char) (next : Nat)
  /-- Reads one character of a set. -/
  | set (s : CodeSet) (next : Nat)
  /-- Goes on at some places only. -/
  | look (l : Look) (next : Nat)
  /-- Goes on in two ways. -/
  | fork (one other : Nat)
  /-- Ends a match. -/
  | done
  deriving DecidableEq, Repr

/-- Steps by their addresses, and the address of the first one. -/
structure Program where
  steps : Array Step
  start : Nat
  deriving DecidableEq, Repr

namespace Program

/-! ## From expressions to programs

A program is put together from its end: each expression is put in front of what stands behind it. -/

/-- The program that ends a match at once. -/
def done : Program := ⟨#[.done], 0⟩

/-- The program with the steps so far that begins with one more. -/
def emit (p : Program) (s : Step) : Program :=
  let address := p.steps.size
  ⟨p.steps.push s, address⟩

/-- What `add` puts in front, `n` times. -/
def times (add : Program → Program) : Nat → Program → Program
  | 0, p => p
  | n + 1, p => times add n (add p)

/-- What `add` puts in front, as often as wanted: a fork into it, to which it leads back. -/
def loop (add : Program → Program) (p : Program) : Program :=
  let leave := p.start
  let fork := p.steps.size
  let q := add (p.emit (.fork fork leave))
  ⟨q.steps.setIfInBounds fork (.fork q.start leave), fork⟩

/-- What `add` puts in front, or a way around it to the address `leave`. -/
def optional (add : Program → Program) (leave : Nat) (p : Program) : Program :=
  let q := add p
  let first := q.start
  q.emit (.fork first leave)

/-- An expression in front of a program. -/
def before : Regex → Program → Program
  | .empty, p => p
  | .literal cs, p => cs.foldr (fun c p => p.emit (.char c p.start)) p
  | .set s, p => p.emit (.set s p.start)
  | .look l, p => p.emit (.look l p.start)
  | .group _ r, p => before r p
  | .repeated r low high _, p =>
    times (before r) low <|
      match high with
      | some high => times (optional (before r) p.start) (high - low) p
      | none => loop (before r) p
  | .seq r s, p => before r (before s p)
  | .alt r s, p =>
    let behind := p.start
    let ⟨steps, one⟩ := before r p
    let q := before s ⟨steps, behind⟩
    let other := q.start
    q.emit (.fork one other)

def ofRegex (r : Regex) : Program :=
  before r done

/-! ## Searching a text -/

/-- The steps that can be reached at a place. -/
structure Reached where
  /-- Those that read a character. -/
  reading : List Nat
  /-- A match ends here. -/
  matched : Bool
  /-- For each step the number of the last place at which it was noted, counted from one. -/
  noted : Array Nat

/-- The steps that can be reached from some addresses at a place, where `reading` and `noted` tell of
those reached so far. A step is noted once for each place, and `n` bounds the steps that follow. -/
def reach (p : Program) (text : Array Char) (place : Nat) :
    Nat → List Nat → List Nat → Array Nat → Reached
  | n + 1, a :: todo, reading, noted =>
    if noted.getD a 0 = place + 1 then reach p text place n todo reading noted
    else if h : a < p.steps.size then
      let noted := noted.setIfInBounds a (place + 1)
      match p.steps[a] with
      | .char _ _ => reach p text place n todo (a :: reading) noted
      | .set _ _ => reach p text place n todo (a :: reading) noted
      | .look l next =>
        reach p text place n (if l.holds text place then next :: todo else todo) reading noted
      | .fork one other => reach p text place n (one :: other :: todo) reading noted
      | .done => ⟨reading, true, noted⟩
    else reach p text place n todo reading noted
  | _, _, reading, noted => ⟨reading, false, noted⟩

/-- The address behind a step that reads a character, if it reads this one. -/
def next? (p : Program) (c : Char) (a : Nat) : Option Nat :=
  match p.steps[a]? with
  | some (.char d next) => if c = d then some next else none
  | some (.set s next) => if s.contains c.toNat then some next else none
  | _ => none

/-- Whether a match ends at a place or behind it, where `cs` are the characters behind the place and
`todo` the addresses at which matches go on; a match may start anywhere. -/
def search (p : Program) (text : Array Char) : Nat → List Char → List Nat → Array Nat → Bool
  | place, cs, todo, noted =>
    let bound := 3 * p.steps.size + todo.length + 2
    let ⟨reading, matched, noted⟩ := reach p text place bound (p.start :: todo) [] noted
    if matched then true
    else
      match cs with
      | [] => false
      | c :: cs => search p text (place + 1) cs (reading.filterMap (p.next? c)) noted

/-- Whether a program matches somewhere in a text. -/
def isMatch (p : Program) (text : String) : Bool :=
  let cs := text.toList
  p.search cs.toArray 0 cs [] (Array.replicate p.steps.size 0)

end Program

end Runbook.Pattern
