import Runbook.Pipeline.Basic
import Runbook.Text.Lines

/-!
# Outlines, and how a pipeline is written

An outline is a block with its references resolved: commands, calls, and groups of them. It is
what a pipeline is written from. `simplify` takes every group of one member for that member, since
both run the same way: blocks with equal simplified outlines run the same way.
-/

namespace Runbook

/-- A block with its references resolved. -/
inductive Outline where
  /-- A shell command. -/
  | shell (line : String)
  /-- A procedure call. -/
  | call (name : String) (args : Arguments)
  /-- A block. -/
  | group (parallel : Bool) (members : List Outline)
  deriving Repr

namespace Outline

mutual

/-- The outline without groups of one member. -/
def simplify : Outline → Outline
  | .shell line => .shell line
  | .call name args => .call name args
  | .group parallel members =>
    match simplifyAll members with
    | [x] => x
    | xs => .group parallel xs

def simplifyAll : List Outline → List Outline
  | [] => []
  | x :: xs => x.simplify :: simplifyAll xs

end

mutual

/-- The rows an outline is written in: brackets stand alone, and members a tab further in. -/
def rows (encode : Shell.Encoder) (indent : String) : Outline → List String
  | .shell line => [indent ++ line]
  | .call name args => [indent ++ name ++ args.render encode]
  | .group parallel members =>
    (indent ++ (Bracket.ofParallel parallel).opening) ::
      (rowsAll encode (indent ++ "\t") members ++
        [indent ++ (Bracket.ofParallel parallel).closing])

/-- The rows of the members of a group. -/
def rowsAll (encode : Shell.Encoder) (indent : String) : List Outline → List String
  | [] => []
  | x :: xs => x.rows encode indent ++ rowsAll encode indent xs

end

def render (x : Outline) (encode : Shell.Encoder) (indent : String) : String :=
  Text.unlines (x.rows encode indent)

theorem simplifyAll_eq_map (xs : List Outline) : simplifyAll xs = xs.map simplify := by
  induction xs with
  | nil => rfl
  | cons x xs ih => simp [simplifyAll, ih]

end Outline

namespace Pipeline

/-- The outline of an item, when `blockOutline` gives those of the blocks. -/
def itemOutlineWith (blockOutline : Nat → Except Misuse Outline) (x : Item) :
    Except Misuse Outline :=
  match x.action with
  | .shell line _ _ => .ok (.shell line)
  | .call name args => .ok (.call name args)
  | .block i => blockOutline i

/-- The outline of the block at an index when references are followed to a depth below `n`. -/
def outlineWithin (p : Pipeline) : Nat → Nat → Except Misuse Outline
  | 0, i => .error (.cyclicBlock i)
  | n + 1, i => do
    let b ← p.block i
    let members ← b.items.mapM (itemOutlineWith (p.outlineWithin n))
    return .group b.parallel members

/-- A depth that references without a cycle do not reach. -/
def depthBound (p : Pipeline) : Nat :=
  p.blocks.size + 1

/-- The outline of the block at an index. -/
def outline (p : Pipeline) (i : Nat) : Except Misuse Outline :=
  p.outlineWithin p.depthBound i

def itemOutline (p : Pipeline) (x : Item) : Except Misuse Outline :=
  itemOutlineWith p.outline x

/-- The simplified outline of the block at an index: how the block runs. -/
def tree (p : Pipeline) (i : Nat) : Except Misuse Outline :=
  Outline.simplify <$> p.outline i

def attributeRow (a : String × String) : String :=
  "#@ " ++ a.1 ++ ": " ++ a.2

/-- The rows of a procedure: its attributes, then its header with the block behind it. -/
def procedureRows (p : Pipeline) (encode : Shell.Encoder) (x : Procedure) :
    Except Misuse (List String) := do
  let body ← p.outline x.blockIndex
  return x.attributes.map attributeRow ++
    (body.rows encode "").modifyHead (x.name ++ "() " ++ ·)

/-- The rows of the default block: no row without items, a single item bare, else a block. -/
def defaultRows (p : Pipeline) (encode : Shell.Encoder) : Except Misuse (List String) := do
  let b ← p.defaultBlock
  match b.items with
  | [] => return []
  | [x] => return (← p.itemOutline x).rows encode ""
  | _ => return (← p.outline defaultIndex).rows encode ""

/-- The rows of the document: procedures in name order, then the default block, with an empty row
between two of them. -/
def rows (p : Pipeline) (encode : Shell.Encoder) : Except Misuse (List String) := do
  let procedures ← p.procedures.values.mapM (p.procedureRows encode)
  let last ← p.defaultRows encode
  return List.intercalate [""] (procedures ++ if last.isEmpty then [] else [last])

/-- The pipeline as a document. -/
def render (p : Pipeline) (encode : Shell.Encoder) : Except Misuse String :=
  Text.unlines <$> p.rows encode

end Pipeline

end Runbook
