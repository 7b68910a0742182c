import Runbook.Pipeline.Item

/-!
# Blocks

A block is a sequence of items and says whether they may run side by side. In a document single
brackets stand around items that run in turn, double ones around items that may run in parallel.
-/

namespace Runbook

/-- The two kinds of brackets. -/
inductive Bracket where
  /-- Single brackets: one item after the other. -/
  | sequential
  /-- Double brackets: all items at once. -/
  | parallel
  deriving DecidableEq, Repr

namespace Bracket

/-- The brackets around a block. -/
def ofParallel (parallel : Bool) : Bracket :=
  if parallel then .parallel else .sequential

/-- Whether items between these brackets may run side by side. -/
def isParallel : Bracket → Bool
  | .sequential => false
  | .parallel => true

def opening : Bracket → String
  | .sequential => "\x7b"
  | .parallel => "\x7b\x7b"

def closing : Bracket → String
  | .sequential => "\x7d"
  | .parallel => "\x7d\x7d"

@[simp] theorem isParallel_ofParallel (b : Bool) : (ofParallel b).isParallel = b := by
  cases b <;> rfl

@[simp] theorem ofParallel_isParallel (b : Bracket) : ofParallel b.isParallel = b := by
  cases b <;> rfl

end Bracket

/-- Items, and whether they may run side by side. -/
structure Block where
  items : List Item
  parallel : Bool
  deriving DecidableEq, Repr

namespace Block

def empty (parallel : Bool) : Block := ⟨[], parallel⟩

instance : Inhabited Block := ⟨empty false⟩

/-- The brackets the block is written with. -/
def bracket (b : Block) : Bracket :=
  .ofParallel b.parallel

def push (b : Block) (x : Item) : Block :=
  { b with items := b.items ++ [x] }

def append (b : Block) (xs : List Item) : Block :=
  { b with items := b.items ++ xs }

/-- The block in a dump: one line for one item, a list for several. -/
def detail (b : Block) : String :=
  match b.items with
  | [] => "<empty>"
  | [x] => x.detail
  | xs =>
    " (parallel = " ++ toString b.parallel ++ ") " ++ toString xs.length ++ " items:" ++
      String.join (xs.zipIdx.map fun (x, i) => "\n  [" ++ toString i ++ "]" ++ x.detail)

end Block

end Runbook
