import Runbook.Proofs.Pipeline.Embedding
import Runbook.Proofs.Pipeline.Layout
import Runbook.Proofs.Pipeline.Represents

/-!
# What items run

Items run some outlines in a table (`Table.Runs`) when they have these outlines in every pipeline
with the blocks of the table, whatever its default block is. So what they run is known before the
table is complete, and lasts when it grows.
-/

namespace Runbook

theorem Table.Keeps.toExtends {t u : Table} (h : t.Keeps u) : t.Extends u :=
  fun i b _ hb => h i b hb

namespace Table

/-- The items run the outlines in every pipeline that has the blocks of the table behind the default
one. -/
def Runs (t : Table) (xs : List Item) (os : List Outline) : Prop :=
  ∀ (p : Pipeline) (n : Nat), t.Extends p.blocks → t.size ≤ n →
    xs.mapM (Pipeline.itemOutlineWith (p.outlineWithin n)) = .ok os

namespace Runs

variable {t u : Table} {xs ys : List Item} {os os' : List Outline} {o : Outline} {b : Block}
  {p : Pipeline} {i : Nat}

theorem nil (t : Table) : t.Runs [] [] :=
  fun _ _ _ _ => rfl

theorem append (h : t.Runs xs os) (h' : t.Runs ys os') : t.Runs (xs ++ ys) (os ++ os') := by
  intro p n hp hn
  rw [List.mapM_append, h p n hp hn, h' p n hp hn]
  rfl

theorem mono (h : t.Runs xs os) (hkeeps : t.Keeps u) : u.Runs xs os :=
  fun p n hp hn => h p n (hkeeps.toExtends.trans hp) (Nat.le_trans hkeeps.size_le hn)

/-- A reference to a new block runs the group of what the items of the block run. -/
theorem push (h : t.Runs b.items os) (ht : 0 < t.size) :
    Runs (t.push b) [.block t.size] [.group b.parallel os] := by
  intro p n hp hn
  rw [Array.size_push] at hn
  obtain ⟨m, rfl⟩ : ∃ m, n = m + 1 := ⟨n - 1, by omega⟩
  have hb : p.blocks[t.size]? = some b := hp t.size b ht (by simp)
  have hitems := h p m ((Extends.push t b).trans hp) (Nat.le_of_succ_le_succ hn)
  rw [mapM_cons_ok]
  refine ⟨.group b.parallel os, [], ?_, rfl, rfl⟩
  show p.outlineWithin (m + 1) t.size = _
  rw [Pipeline.outlineWithin_succ hb, hitems]
  rfl

theorem statements (t : Table) (ss : List Shell.Statement) :
    t.Runs (ss.map .ofStatement) ((ss.map Shell.Statement.text).map .shell) :=
  fun _ _ _ _ => Element.mapM_outline_ofStatement _ ss

/-- The items of a command run what the command does. -/
theorem command (c : Command) (parallel : Bool) (ht : 0 < t.size) :
    Runs ((Placement.ofCommand c.text c.statements parallel).addTo t)
      ((Placement.ofCommand c.text c.statements parallel).itemsIn t)
      ((Element.command c).outlines parallel) := by
  rw [Element.outlines]
  rcases Element.ofCommand_cases c parallel with ⟨-, hlines, hplaced⟩ |
    ⟨hlines, ⟨hparallel, hlength, hplaced⟩ | ⟨hsplit, hplaced⟩⟩
  · obtain ⟨head, words, haction⟩ := exists_action_ofStatements c.text c.statements
    rw [hplaced, hlines, if_neg (by simp)]
    intro p n _ _
    show [Item.ofStatements c.text c.statements].mapM _ = _
    rw [mapM_cons_ok]
    exact ⟨.shell c.text, [], by rw [Pipeline.itemOutlineWith, haction], rfl, rfl⟩
  · rw [hplaced, hlines, List.length_map, if_pos ⟨hparallel, hlength⟩]
    exact push (b := ⟨c.statements.map .ofStatement, false⟩) (.statements t c.statements) ht
  · rw [hplaced, hlines, List.length_map, if_neg hsplit]
    exact .statements t c.statements

/-- In a pipeline with the blocks of the table a block has the outline that a reference to it
runs. -/
theorem outline (h : t.Runs [.block i] [o]) (hp : t.Extends p.blocks)
    (hsize : t.size ≤ p.blocks.size) : p.outline i = .ok o := by
  have hitem := h p p.depthBound hp (Nat.le_succ_of_le hsize)
  rw [mapM_cons_ok] at hitem
  obtain ⟨o', os, ho, -, heq⟩ := hitem
  obtain ⟨rfl, -⟩ := List.cons_eq_cons.1 heq
  exact ho

theorem members (h : t.Runs (defaultItems p.blocks) os) (hp : t.Extends p.blocks)
    (hsize : t.size ≤ p.blocks.size) : p.members = .ok os :=
  h p p.depthBound hp (Nat.le_succ_of_le hsize)

end Runs

end Table

end Runbook
