import Runbook.Proofs.Document.Command
import Runbook.Proofs.Pipeline.Call

/-!
# Outlines that are read back

The rows an outline is written in, read in a block, give one item for the outline: the brackets open
and close a block of the table, and the members give its items in between. The table grows, and
nothing that stood for an outline before stops doing so.
-/

namespace Runbook

open Document
open Shell (posix)
open Text (physicalLines)

mutual

/-- Every command of the outline is read as itself, and every call as that call. -/
def Outline.Readable (known : String → Bool) : Outline → Prop
  | .shell line => ReadsAs known line (.shell line)
  | .call name args => ReadsAs known (callLine name args) (.call name args)
  | .group _ members => Outline.ReadableAll known members

def Outline.ReadableAll (known : String → Bool) : List Outline → Prop
  | [] => True
  | x :: xs => x.Readable known ∧ Outline.ReadableAll known xs

end

/-- No block of the table gives an option twice. -/
def Table.Settled (known : String → Bool) (t : Table) : Prop :=
  ∀ b ∈ t, Block.Settled known b

theorem Table.Settled.push {known : String → Bool} {t : Table} {b : Block}
    (ht : t.Settled known) (hb : b.Settled known) : Table.Settled known (t.push b) :=
  Array.forall_mem_push.2 ⟨hb, ht⟩

namespace Document

/-! ## Brackets -/

section Brackets

variable {indent : String} {b : Bracket}

theorem leftBracket?_opening (h : ∀ c ∈ indent.toList, Text.isBlank c = true) :
    leftBracket? (indent ++ b.opening) = some b := by
  unfold leftBracket?
  rw [String.toList_append, Text.trim_append_of_blank h]
  cases b <;> decide

theorem rightBracket?_opening (h : ∀ c ∈ indent.toList, Text.isBlank c = true) :
    rightBracket? (indent ++ b.opening) = none := by
  unfold rightBracket?
  rw [String.toList_append, Text.trim_append_of_blank h]
  cases b <;> decide

theorem rightBracket?_closing (h : ∀ c ∈ indent.toList, Text.isBlank c = true) :
    rightBracket? (indent ++ b.closing) = some b := by
  unfold rightBracket?
  rw [String.toList_append, Text.trim_append_of_blank h]
  cases b <;> decide

theorem physicalLines_opening (h : '\n' ∉ indent.toList) :
    Text.physicalLines (indent ++ b.opening) = [indent ++ b.opening] := by
  apply Text.physicalLines_of_isRow
  rw [String.toList_append]
  constructor
  · rw [List.mem_append, not_or]
    exact ⟨h, by cases b <;> decide⟩
  · rw [List.getLast?_append]
    cases b <;> simp [Bracket.opening]

theorem physicalLines_closing (h : '\n' ∉ indent.toList) :
    Text.physicalLines (indent ++ b.closing) = [indent ++ b.closing] := by
  apply Text.physicalLines_of_isRow
  rw [String.toList_append]
  constructor
  · rw [List.mem_append, not_or]
    exact ⟨h, by cases b <;> decide⟩
  · rw [List.getLast?_append]
    cases b <;> simp [Bracket.closing]

end Brackets

/-! ## Members of a block -/

/-- An indent of tabs. -/
def IsIndent (indent : String) : Prop :=
  ∀ c ∈ indent.toList, c = '\t'

theorem IsIndent.blank {indent : String} (h : IsIndent indent) :
    ∀ c ∈ indent.toList, Text.isBlank c = true := by
  intro c hc
  rw [h c hc]
  decide

theorem IsIndent.lineFeed_not_mem {indent : String} (h : IsIndent indent) :
    '\n' ∉ indent.toList := by
  intro hmem
  exact absurd (h _ hmem) (by decide)

theorem IsIndent.tab {indent : String} (h : IsIndent indent) : IsIndent (indent ++ "\t") := by
  intro c hc
  rw [String.toList_append] at hc
  rcases List.mem_append.1 hc with hc | hc
  · exact h c hc
  · exact List.mem_singleton.1 hc

section Rows

variable {known : String → Bool}

/-- What lines achieve in a block: items for some outlines, in a table that has grown. -/
structure Achieves (known : String → Bool) (lines : List String) (n : Nest) (t : Table)
    (os : List Outline) (xs : List Item) (t' : Table) : Prop where
  follows : n.Follows lines t ⟨n.inner.append xs, n.outer, none⟩ t'
  grows : t.Extends t'
  nonempty : 0 < t'.size
  tableSettled : t'.Settled known
  settled : ∀ x ∈ xs, x.Settled known
  represents : RepresentsAll known t' os xs

variable {n : Nest} {t t' t'' : Table} {os os' : List Outline} {xs xs' : List Item}
  {lines lines' : List String}

theorem representsAll_append (h : RepresentsAll known t os xs)
    (h' : RepresentsAll known t os' xs') : RepresentsAll known t (os ++ os') (xs ++ xs') := by
  induction os generalizing xs with
  | nil =>
    rw [RepresentsAll] at h
    rw [h]
    exact h'
  | cons o os ih =>
    rw [RepresentsAll] at h
    obtain ⟨y, ys, rfl, hy, hys⟩ := h
    rw [List.cons_append, RepresentsAll]
    exact ⟨y, ys ++ xs', rfl, hy, ih hys⟩

theorem representsAll_singleton {o : Outline} {x : Item} :
    RepresentsAll known t [o] [x] ↔ Represents known t o x := by
  rw [RepresentsAll]
  constructor
  · rintro ⟨y, ys, hcons, hy, -⟩
    obtain ⟨rfl, -⟩ := List.cons_eq_cons.1 hcons
    exact hy
  · intro h
    exact ⟨x, [], rfl, h, by rw [RepresentsAll]⟩

theorem Frame.append_append (f : Frame) (xs ys : List Item) :
    (f.append xs).append ys = f.append (xs ++ ys) := by
  unfold append
  rw [List.reverse_append, List.append_assoc]

theorem Frame.append_nil (f : Frame) : f.append [] = f := rfl

theorem Achieves.nil (hcommand : n.command = none) (hsize : 0 < t.size) (ht : t.Settled known) :
    Achieves known [] n t [] [] t := by
  have hn : (⟨n.inner.append [], n.outer, none⟩ : Nest) = n := by
    rw [Frame.append_nil, ← hcommand]
  refine ⟨?_, .refl t, hsize, ht, by simp, by rw [RepresentsAll]⟩
  rw [hn]
  exact .nil n t

theorem Achieves.append (h : Achieves known lines n t os xs t')
    (h' : Achieves known lines' ⟨n.inner.append xs, n.outer, none⟩ t' os' xs' t'') :
    Achieves known (lines ++ lines') n t (os ++ os') (xs ++ xs') t'' := by
  refine ⟨?_, h.grows.trans h'.grows, h'.nonempty, h'.tableSettled, ?_,
    representsAll_append (h.represents.mono h'.grows) h'.represents⟩
  · have hfollows := h.follows.append h'.follows
    rw [Frame.append_append] at hfollows
    exact hfollows
  · intro x hx
    rcases List.mem_append.1 hx with hx | hx
    · exact h.settled x hx
    · exact h'.settled x hx

theorem Achieves.command {line indent : String} {o : Outline} (h : ReadsAs known line o)
    (hindent : IsIndent indent) (hcommand : n.command = none) (hsize : 0 < t.size)
    (ht : t.Settled known) :
    Achieves known (physicalLines (indent ++ line)) n t [o] [.ofLine line] t := by
  refine ⟨Nest.follows_command h hindent.blank hindent.lineFeed_not_mem hcommand, .refl t, hsize,
    ht, ?_, representsAll_singleton.2 (h.stands t)⟩
  intro x hx
  rw [List.mem_singleton.1 hx]
  exact h.settled

/-- Brackets around the members become a block, and an item that refers to it. -/
theorem Achieves.group {indent : String} {b : Bracket} (hindent : IsIndent indent)
    (hcommand : n.command = none)
    (h : Achieves known lines ⟨.new b, n.inner :: n.outer, none⟩ t os xs t') :
    Achieves known ((indent ++ b.opening) :: (lines ++ [indent ++ b.closing])) n t
      [.group b.isParallel os] [.block t'.size] (t'.push ⟨xs, b.isParallel⟩) := by
  have hblock : ((Frame.new b).append xs).block = ⟨xs, b.isParallel⟩ := by
    rw [Frame.block_append, Frame.block_new]
    rfl
  have hopen : n.Moves (indent ++ b.opening) t (.inside ⟨.new b, n.inner :: n.outer, none⟩ t) :=
    .opening b hcommand (rightBracket?_opening hindent.blank) (leftBracket?_opening hindent.blank)
  have hclose : (⟨(Frame.new b).append xs, n.inner :: n.outer, none⟩ : Nest).Moves
      (indent ++ b.closing) t'
      (.inside ⟨n.inner.append [.block t'.size], n.outer, none⟩ (t'.push ⟨xs, b.isParallel⟩)) := by
    rw [← hblock]
    exact .nested n.inner n.outer rfl rfl (rightBracket?_closing hindent.blank)
  have hgrows := Table.Extends.push t' ⟨xs, b.isParallel⟩
  refine ⟨.cons hopen (h.follows.append (.cons hclose (.nil _ _))), h.grows.trans hgrows,
    by simp, h.tableSettled.push h.settled, ?_, ?_⟩
  · intro x hx
    rw [List.mem_singleton.1 hx]
    exact ⟨none, rfl⟩
  · rw [representsAll_singleton, Represents]
    exact ⟨t'.size, ⟨xs, b.isParallel⟩, rfl, h.nonempty, by simp, rfl, h.represents.mono hgrows⟩

mutual

/-- **Written outlines.** The rows of an outline, read in a block, become an item for it. -/
theorem exists_achieves_rows : ∀ {o : Outline}, o.Readable known → ∀ {indent : String},
    IsIndent indent → ∀ {n : Nest} {t : Table}, n.command = none → 0 < t.size → t.Settled known →
    ∃ x t', Achieves known ((o.rows posix indent).flatMap physicalLines) n t [o] [x] t'
  | .shell line, ho, indent, hindent, n, t, hcommand, hsize, ht => by
    rw [Outline.Readable] at ho
    rw [Outline.rows, List.flatMap_singleton]
    exact ⟨_, t, .command ho hindent hcommand hsize ht⟩
  | .call name args, ho, indent, hindent, n, t, hcommand, hsize, ht => by
    rw [Outline.Readable] at ho
    rw [Outline.rows, List.flatMap_singleton, String.append_assoc]
    exact ⟨_, t, .command ho hindent hcommand hsize ht⟩
  | .group parallel members, ho, indent, hindent, n, t, hcommand, hsize, ht => by
    rw [Outline.Readable] at ho
    obtain ⟨xs, t', hmembers⟩ := exists_achieves_rowsAll ho hindent.tab
      (n := ⟨.new (.ofParallel parallel), n.inner :: n.outer, none⟩) rfl hsize ht
    have hgroup := hmembers.group hindent hcommand
    rw [Bracket.isParallel_ofParallel] at hgroup
    rw [Outline.rows, List.flatMap_cons, List.flatMap_append, List.flatMap_singleton,
      physicalLines_opening hindent.lineFeed_not_mem,
      physicalLines_closing hindent.lineFeed_not_mem]
    exact ⟨_, _, hgroup⟩

theorem exists_achieves_rowsAll : ∀ {os : List Outline}, Outline.ReadableAll known os →
    ∀ {indent : String}, IsIndent indent → ∀ {n : Nest} {t : Table}, n.command = none →
    0 < t.size → t.Settled known →
    ∃ xs t', Achieves known ((Outline.rowsAll posix indent os).flatMap physicalLines) n t os xs t'
  | [], _, indent, _, n, t, hcommand, hsize, ht => by
    rw [Outline.rowsAll]
    exact ⟨[], t, .nil hcommand hsize ht⟩
  | o :: os, ho, indent, hindent, n, t, hcommand, hsize, ht => by
    rw [Outline.ReadableAll] at ho
    obtain ⟨x, t', hx⟩ := exists_achieves_rows ho.1 hindent hcommand hsize ht
    obtain ⟨xs, t'', hxs⟩ := exists_achieves_rowsAll ho.2 hindent
      (n := ⟨n.inner.append [x], n.outer, none⟩) rfl hx.nonempty hx.tableSettled
    refine ⟨x :: xs, t'', ?_⟩
    rw [Outline.rowsAll, List.flatMap_append]
    exact hx.append hxs

end

end Rows

end Document

end Runbook
