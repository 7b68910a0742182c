import Runbook.Proofs.Document.Entry
import Runbook.Proofs.Document.Forest
import Runbook.Proofs.Document.Rereadable

/-!
# Reading the default block of a written pipeline

The default block is the last entry of a written pipeline: nothing, a bare item or a block. Read
behind the procedures it gives the load items that run the way the default block does
(`exists_run_default`). The block at index 0 is empty until the end of the document, as no line
changes a block that is in the table (`State.getElem?_blocks_of_run`).
-/

namespace Runbook

/-- A bare command or call whose first line is a command to a reader outside of any block; a block
begins with its bracket. -/
def Outline.Bare : Outline → Prop
  | .shell line => ∀ l ∈ (Text.physicalLines line).head?, Document.classify l = .command
  | .call name args =>
    ∀ l ∈ (Text.physicalLines (callLine name args)).head?, Document.classify l = .command
  | .group _ _ => True

@[simp] theorem Outline.simplify_group_nil (parallel : Bool) :
    (Outline.group parallel []).simplify = .group parallel [] := by
  simp [simplify, simplifyAll]

@[simp] theorem Outline.simplify_group_singleton (parallel : Bool) (o : Outline) :
    (Outline.group parallel [o]).simplify = o.simplify := by
  simp [simplify, simplifyAll]

/-! ## The rows of the default block -/

theorem Pipeline.Rereadable.bare_itemOutline {p : Pipeline} (hp : p.Rereadable) {b : Block}
    {x : Item} (hb : p.blocks[defaultIndex]? = some b) (hitems : b.items = [x]) {o : Outline}
    (ho : p.itemOutline x = .ok o) : o.Bare := by
  have hbare := hp.bare b x
  unfold Item.text? at hbare
  unfold itemOutline itemOutlineWith at ho
  split at ho
  · next line head words haction =>
    obtain rfl := Except.ok.inj ho
    rw [haction] at hbare
    exact hbare line hb hitems rfl
  · next name args haction =>
    obtain rfl := Except.ok.inj ho
    rw [haction] at hbare
    exact hbare (callLine name args) hb hitems rfl
  · obtain ⟨b', members, -, -, rfl⟩ := outlineWithin_ok ho
    trivial

/-- The default block is written as nothing when it is empty. Else it is written as an outline that
runs the same way. -/
theorem Pipeline.Rereadable.defaultRows_cases {p : Pipeline} (hp : p.Rereadable) {b : Block}
    (hb : p.blocks[defaultIndex]? = some b) {rows : List String}
    (h : p.defaultRows Shell.posix = .ok rows) :
    (rows = [] ∧ p.tree defaultIndex = .ok (.group b.parallel [])) ∨
      ∃ o : Outline, rows = o.rows Shell.posix "" ∧ p.tree defaultIndex = .ok o.simplify ∧
        o.Readable p.procedures.contains ∧ o.Bare := by
  obtain ⟨rank, hrank⟩ := hp.ranked
  have houtline := hrank.outline_eq hb
  have hblock := defaultBlock_of_getElem? hb
  obtain ⟨items, parallel⟩ := b
  match items with
  | [] =>
    left
    rw [defaultRows_of_nil hblock] at h
    refine ⟨(Except.ok.inj h).symm, ?_⟩
    have hnil : p.outline defaultIndex = .ok (.group parallel []) := houtline
    rw [tree_of_outline hnil, Outline.simplify_group_nil]
  | [x] =>
    right
    rw [defaultRows_of_singleton hblock] at h
    cases ho : p.itemOutline x with
    | error e =>
      rw [ho] at h
      cases h
    | ok o =>
      rw [ho] at h
      have hgroup : p.outline defaultIndex = .ok (.group parallel [o]) := by
        rw [houtline, List.mapM_cons, ho]
        rfl
      obtain ⟨parallel', members, hmembers, hreadable⟩ := hp.exists_outline hp.nonempty
      obtain ⟨-, rfl⟩ := Outline.group.inj (Except.ok.inj (hmembers.symm.trans hgroup))
      rw [Outline.ReadableAll] at hreadable
      refine ⟨o, (Except.ok.inj h).symm, ?_, hreadable.1, hp.bare_itemOutline hb rfl ho⟩
      rw [tree_of_outline hgroup, Outline.simplify_group_singleton]
  | x :: y :: xs =>
    right
    rw [defaultRows_of_more hblock] at h
    cases ho : p.outline defaultIndex with
    | error e =>
      rw [ho] at h
      cases h
    | ok o =>
      rw [ho] at h
      obtain ⟨parallel, members, hgroup, hmembers⟩ := hp.exists_outline hp.nonempty
      obtain rfl := Except.ok.inj (ho.symm.trans hgroup)
      refine ⟨_, (Except.ok.inj h).symm, tree_of_outline ho, ?_, trivial⟩
      rw [Outline.Readable]
      exact hmembers

namespace Document

open Shell (posix)
open Text (physicalLines)

namespace State

variable {c : Setting} {file : String} {known : String → Bool}

/-! ## Items of the default block -/

/-- What the rows of the default block achieve: items that run like the tree, in a table that has
grown. -/
structure Filled (known : String → Bool) (parallel : Bool) (tree : Outline) (s t : State) :
    Prop where
  mode : t.mode = .idle
  assigned : t.assigned = s.assigned
  procedures : t.pipeline.procedures = s.pipeline.procedures
  nonempty : 0 < t.pipeline.blocks.size
  grows : Table.Extends s.pipeline.blocks t.pipeline.blocks
  tableSettled : Table.Settled known t.pipeline.blocks
  settled : ∀ x ∈ t.items, x.Settled known
  tree : ∃ os, RepresentsAll known t.pipeline.blocks os t.items.reverse ∧
    (Outline.group parallel os).simplify = tree

theorem filled_command {s : State} {line : String} {o : Outline} (h : ReadsAs known line o)
    (hitems : s.items = []) (hsize : 0 < s.pipeline.blocks.size)
    (hsettled : Table.Settled known s.pipeline.blocks) (parallel : Bool) :
    Filled known parallel o.simplify s (s.appendDefault [.ofLine line]) := by
  constructor
  · rfl
  · rfl
  · rfl
  · exact hsize
  · exact .refl _
  · exact hsettled
  · intro x hx
    simp only [appendDefault, hitems, List.reverse_singleton, List.append_nil,
      List.mem_singleton] at hx
    rw [hx]
    exact h.settled
  · refine ⟨[o], ?_, Outline.simplify_group_singleton parallel o⟩
    show RepresentsAll known s.pipeline.blocks [o] (([Item.ofLine line].reverse ++ s.items).reverse)
    rw [hitems]
    exact representsAll_singleton.2 (h.stands _)

theorem Built.filled {s : State} {parallel' : Bool} {members : List Outline} {b : Block} {t : Table}
    (h : Built known s.pipeline.blocks parallel' members b t) (hitems : s.items = [])
    (parallel : Bool) :
    Filled known parallel (Outline.group parallel' members).simplify s
      ((s.withTable (t.push b)).appendDefault [.block t.size]) := by
  constructor
  · rfl
  · rfl
  · rfl
  · exact Nat.lt_of_lt_of_eq (Nat.succ_pos _) (Array.size_push b).symm
  · exact h.grows.trans (Table.Extends.push t b)
  · exact h.tableSettled.push h.settled
  · intro x hx
    simp only [appendDefault, withTable, hitems, List.reverse_singleton, List.append_nil,
      List.mem_singleton] at hx
    rw [hx]
    exact ⟨none, rfl⟩
  · refine ⟨[.group parallel' members], ?_, Outline.simplify_group_singleton parallel _⟩
    show RepresentsAll known (t.push b) _ (([Item.block t.size].reverse ++ s.items).reverse)
    rw [hitems]
    exact representsAll_singleton.2 h.represents_block

/-- **The default block.** Behind the procedures the rows of an outline fill the default block with
an item that runs the same way. -/
theorem exists_run_default {s : State} {o : Outline} (file : String) (ho : o.Readable known)
    (hbare : o.Bare) (hmode : s.mode = .idle) (hpending : s.pending = []) (hitems : s.items = [])
    {b : Block} (hdefault : s.pipeline.blocks[Pipeline.defaultIndex]? = some b)
    (hsettled : Table.Settled known s.pipeline.blocks) (parallel : Bool) (k : Nat) :
    ∃ t, Filled known parallel o.simplify s t ∧
      (s.run c file k ((o.rows posix "").flatMap physicalLines)).result = .ok t := by
  have hsize : 0 < s.pipeline.blocks.size := (Array.getElem?_eq_some_iff.1 hdefault).1
  have hblock := Pipeline.defaultBlock_of_getElem? hdefault
  cases o with
  | shell line =>
    rw [Outline.Readable] at ho
    rw [Outline.rows, List.flatMap_singleton, String.empty_append]
    exact ⟨_, filled_command ho hitems hsize hsettled parallel,
      result_run_command hmode hpending ho hbare hblock k⟩
  | call name args =>
    rw [Outline.Readable] at ho
    rw [Outline.rows, List.flatMap_singleton, String.empty_append]
    exact ⟨_, filled_command ho hitems hsize hsettled parallel,
      result_run_command hmode hpending ho hbare hblock k⟩
  | group parallel' members =>
    rw [Outline.Readable] at ho
    obtain ⟨b', t, hbuilt, hrun⟩ :=
      exists_run_group hmode hpending ho hsize hsettled k
    exact ⟨_, hbuilt.filled hitems parallel, hrun⟩

end State

end Document

end Runbook
