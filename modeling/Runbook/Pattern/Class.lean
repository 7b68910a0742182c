import Runbook.Pattern.Escape

/-!
# Classes in brackets

A class lists characters, ranges, escapes, named sets and further classes, and may join such lists
by operations on sets, which bind to the left.
-/

namespace Runbook.Pattern

/-- One end of a range in a class: a character or a set. -/
def classAtom? : List Char → Option ((Char ⊕ CharSet) × List Char)
  | [] => none
  | '\\' :: cs => do
    match ← escape? cs with
    | (.char c, rest) => return (.inl c, rest)
    | (.set s, rest) => return (.inr s, rest)
    | (.look _, _) => none
  | c :: cs => some (.inl c, cs)

/-- A character, a set or a range in a class. A `-` before `]` or another `-` makes no range. -/
def classItem? (cs : List Char) : Option (CharSet × List Char) := do
  let (a, rest) ← classAtom? cs
  let single := match a with
    | .inl c => CharSet.char c
    | .inr s => s
  match rest with
  | [] => none
  | '-' :: more =>
    match more with
    | [] => none
    | d :: _ =>
      if d = ']' ∨ d = '-' then return (single, rest)
      let (b, rest) ← classAtom? more
      match a, b with
      | .inl low, .inl high => if low ≤ high then return (.range low high, rest) else none
      | _, _ => none
  | _ => return (single, rest)

/-- A named set such as `[:alpha:]` or `[:^alpha:]`, behind its opening bracket. -/
def namedClass? (cs : List Char) : Option (CharSet × List Char) := do
  let ':' :: cs := cs | none
  let (negated, cs) := match cs with
    | '^' :: cs => (true, cs)
    | _ => (false, cs)
  let name := cs.takeWhile (· ≠ ':')
  let ':' :: ']' :: rest := cs.drop name.length | none
  let s ← CharSet.ascii? (String.ofList name)
  return (if negated then .compl s else s, rest)

/-- A part of a class, with its depth: how far classes, lists of parts and operations are nested in
it. -/
structure ClassPart where
  set : CharSet
  depth : Nat

def ClassPart.leaf (s : CharSet) : ClassPart := ⟨s, 0⟩

/-- Some parts, last first, as one. -/
def ClassPart.ofList : List ClassPart → ClassPart
  | [] => .leaf .none
  | [p] => p
  | ps => ⟨.unions (ps.map (·.set)), (ps.map (·.depth)).foldl max 0 + 1⟩

/-- A class that was begun: whether it is negated, the operation that waits with its left side, and
the parts since then, last first. -/
structure ClassFrame where
  negated : Bool
  waiting : Option (ClassPart × SetOp)
  parts : List ClassPart

namespace ClassFrame

/-- What the class has so far: the operation that waits, and the parts behind it. -/
def settled (f : ClassFrame) : ClassPart :=
  let p := ClassPart.ofList f.parts
  match f.waiting with
  | some (q, o) => ⟨.op o q.set p.set, max q.depth p.depth + 1⟩
  | none => p

def close (f : ClassFrame) : ClassPart :=
  let p := f.settled
  ⟨if f.negated then .compl p.set else p.set, p.depth + 1⟩

def add (f : ClassFrame) (p : ClassPart) : ClassFrame :=
  { f with parts := p :: f.parts }

/-- The class behind an operation. -/
def operate (f : ClassFrame) (o : SetOp) : ClassFrame :=
  { f with waiting := some (f.settled, o), parts := [] }

end ClassFrame

/-- A class just begun, behind its opening bracket: leading hyphens, and a `]` that comes first,
stand for themselves. -/
def beginClass (cs : List Char) : Option (ClassFrame × List Char) :=
  let (negated, cs) := match cs with
    | '^' :: cs => (true, cs)
    | _ => (false, cs)
  let hyphens := cs.takeWhile (· = '-')
  let cs := cs.drop hyphens.length
  let f : ClassFrame := ⟨negated, none, hyphens.map fun c => .leaf (.char c)⟩
  match cs with
  | [] => none
  | ']' :: rest => if hyphens.isEmpty then some (f.add (.leaf (.char ']')), rest) else some (f, cs)
  | _ => some (f, cs)

/-- The rest of a class and of the classes around it; `n` bounds the steps. -/
def classRest? : Nat → ClassFrame → List ClassFrame → List Char → Option (ClassPart × List Char)
  | 0, _, _, _ => none
  | n + 1, f, outer, cs =>
    match cs with
    | [] => none
    | ']' :: rest =>
      match outer with
      | [] => some (f.close, rest)
      | g :: gs => classRest? n (g.add f.close) gs rest
    | '[' :: rest =>
      match namedClass? rest with
      | some (s, rest) => classRest? n (f.add (.leaf s)) outer rest
      | none => do
        let (g, rest) ← beginClass rest
        classRest? n g (f :: outer) rest
    | '&' :: '&' :: rest => classRest? n (f.operate .inter) outer rest
    | '-' :: '-' :: rest => classRest? n (f.operate .diff) outer rest
    | '~' :: '~' :: rest => classRest? n (f.operate .symmDiff) outer rest
    | _ => do
      let (s, rest) ← classItem? cs
      classRest? n (f.add (.leaf s)) outer rest

def class? (cs : List Char) : Option (ClassPart × List Char) := do
  let (f, rest) ← beginClass cs
  classRest? (cs.length + 1) f [] rest

end Runbook.Pattern
