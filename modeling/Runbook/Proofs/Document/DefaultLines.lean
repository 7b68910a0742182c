import Runbook.Proofs.Document.Blanks
import Runbook.Proofs.Document.Body
import Runbook.Proofs.Document.Brackets

/-!
# Command lines given and read

The default block can be filled with command lines from a caller, and a block of a document is read
from lines up to its closing bracket. Where every line stands for itself (`StandsAlone`), a line is
placed in both ways alike (`Nest.step_of_standsAlone`), so the same lines come to the same items and
the same new blocks (`setDefaultLines_eq_readBlock`).
-/

namespace Runbook

open Text (trim trimmed)

/-! ## Lines placed one after the other -/

theorem Placement.ofLine_of_complete {line : String} {statements : List Shell.Statement}
    (h : Shell.tokenize line = .complete statements) (parallel : Bool) :
    ofLine line parallel = ofCommand line statements parallel := by
  unfold ofLine
  rw [h]

theorem Placement.ofCommand_nil (line : String) (parallel : Bool) :
    ofCommand line [] parallel = .items [] := by
  simp [ofCommand]

namespace Gathered

theorem ofLines_congr {parallel : Bool} {t : Table} {lines lines' : List String}
    (h : lines.map trimmed = lines'.map trimmed) :
    ofLines parallel t lines = ofLines parallel t lines' := by
  induction lines generalizing t lines' with
  | nil =>
    obtain rfl := List.map_eq_nil_iff.1 h.symm
    rfl
  | cons line lines ih =>
    obtain ⟨line', lines', rfl, hline, hlines⟩ := List.map_eq_cons_iff.1 h.symm
    simp only [ofLines, hline, ih hlines.symm]

theorem keeps_ofLines (parallel : Bool) (t : Table) (lines : List String) :
    t.Keeps (ofLines parallel t lines).table := by
  induction lines generalizing t with
  | nil => exact .refl t
  | cons line lines ih =>
    unfold ofLines
    exact (Table.Keeps.addTo t (.ofLine (trimmed line) parallel)).trans (ih _)

end Gathered

theorem Pipeline.setDefaultLines_empty {q parallel : Bool} {lines : List String} {g : Gathered}
    (hg : Gathered.ofLines parallel (Pipeline.empty q).blocks lines = g) :
    (Pipeline.empty q).setDefaultLines parallel lines =
      ⟨g.records,
        .ok { Pipeline.empty q with
          blocks := g.table.modify defaultIndex fun _ => ⟨g.items, parallel⟩ }⟩ := by
  have hsize : defaultIndex < g.table.size :=
    hg ▸ (Gathered.keeps_ofLines parallel (Pipeline.empty q).blocks lines).size_le
  unfold setDefaultLines
  rw [hg]
  show Logged.bind ⟨[], .ok (Block.empty q)⟩ _ = _
  simp only [Logged.bind, Block.empty, List.isEmpty_nil, if_true, modifyBlock, if_pos hsize]
  simp [Bind.bind, Logged.bind, Logged.tell, Logged.ofExcept]

namespace Document

/-! ## Lines inside brackets -/

/-- A line that needs no further one and is no bracket: a whole command, a comment or nothing. -/
structure StandsAlone (line : String) : Prop where
  row : '\n' ∉ (trimmed line).toList
  complete : ∃ statements, Shell.tokenize (trimmed line) = .complete statements
  noBracket : ¬IsBracketText (trimmed line)

theorem standsAlone_of_trimmed {line line' : String} (h : StandsAlone line)
    (htrimmed : trimmed line' = trimmed line) : StandsAlone line' := by
  obtain ⟨hrow, hcomplete, hbracket⟩ := h
  exact ⟨htrimmed ▸ hrow, htrimmed ▸ hcomplete, htrimmed ▸ hbracket⟩

theorem tokenize_of_skip {line : String} (hrow : '\n' ∉ (trimmed line).toList)
    (h : isEmptyLine line = true ∨ isCommentLine line = true) :
    Shell.tokenize (trimmed line) = .complete [] := by
  unfold Shell.tokenize
  rw [Text.toList_trimmed] at hrow ⊢
  rcases h with hempty | hcomment
  · rw [List.isEmpty_iff.1 hempty]
    rfl
  · have hhead : (trim line.toList).head? = some '#' :=
      (Text.head?_trim _).trans (of_decide_eq_true hcomment)
    obtain ⟨cs, hcs⟩ := List.head?_eq_some_iff.1 hhead
    rw [hcs] at hrow ⊢
    exact Shell.scan_comment fun hmem => hrow (List.mem_cons_of_mem _ hmem)

namespace Nest

variable {n : Nest} {line text : String} {statements : List Shell.Statement}

theorem readCommand_of_complete (h : Shell.tokenize text = .complete statements) (t : Table)
    (pos : Position) :
    n.readCommand t pos text =
      ⟨(Placement.ofCommand text statements n.inner.bracket.isParallel).records t,
        .ok (.inside
          ⟨n.inner.append
            ((Placement.ofCommand text statements n.inner.bracket.isParallel).itemsIn t),
            n.outer, none⟩
          ((Placement.ofCommand text statements n.inner.bracket.isParallel).addTo t))⟩ := by
  unfold readCommand commandAt
  rw [h]
  simp [Bind.bind, Logged.bind, Logged.tell, Logged.ofExcept, Pure.pure]

/-- A line that stands alone is placed in the innermost block as a given line is. -/
theorem step_of_standsAlone (hcommand : n.command = none) (h : StandsAlone line) (t : Table)
    (pos : Position) :
    n.step t pos line =
      ⟨(Placement.ofLine (trimmed line) n.inner.bracket.isParallel).records t,
        .ok (.inside
          ⟨n.inner.append
            ((Placement.ofLine (trimmed line) n.inner.bracket.isParallel).itemsIn t),
            n.outer, none⟩
          ((Placement.ofLine (trimmed line) n.inner.bracket.isParallel).addTo t))⟩ := by
  have hright := rightBracket?_eq_none h.noBracket
  have hleft := leftBracket?_eq_none h.noBracket
  by_cases hskip : isEmptyLine line = true ∨ isCommentLine line = true
  · have hstep : n.step t pos line = pure (.inside n t) := by
      unfold step
      simp only [hcommand, hright, hleft, if_pos hskip]
    rw [hstep, Placement.ofLine_of_complete (tokenize_of_skip h.row hskip),
      Placement.ofCommand_nil, ← hcommand]
    rfl
  · obtain ⟨statements, hscan⟩ := h.complete
    rw [step_of_reads (.inr ⟨hcommand, ⟨hright, hleft, hskip⟩, rfl⟩),
      Placement.ofLine_of_complete hscan]
    exact readCommand_of_complete hscan t pos

theorem step_closing (hcommand : n.command = none) (houter : n.outer = [])
    (hline : rightBracket? line = some n.inner.bracket) (t : Table) (pos : Position) :
    n.step t pos line = pure (.closed n.inner.block t) := by
  unfold step close
  simp only [hcommand, hline, houter, if_true]

end Nest

/-- **Given lines.** Reading lines that stand alone comes to gathering them. -/
theorem readNest_append_lines {n : Nest} {lines : List String} (hcommand : n.command = none)
    (h : ∀ line ∈ lines, StandsAlone line) (file : String) (t : Table) (seen rest : List String) :
    readNest file n t seen (lines ++ rest) =
      (readNest file
        ⟨n.inner.append (Gathered.ofLines n.inner.bracket.isParallel t lines).items, n.outer, none⟩
        (Gathered.ofLines n.inner.bracket.isParallel t lines).table (lines.reverse ++ seen)
        rest).withRecords (Gathered.ofLines n.inner.bracket.isParallel t lines).records := by
  induction lines generalizing n t seen with
  | nil =>
    obtain ⟨inner, outer, command⟩ := n
    obtain rfl : command = none := hcommand
    rfl
  | cons line lines ih =>
    obtain ⟨hline, hlines⟩ := List.forall_mem_cons.1 h
    rw [List.cons_append, readNest, Nest.step_of_standsAlone hcommand hline]
    dsimp only
    rw [ih rfl hlines]
    simp [Reading.withRecords, Gathered.ofLines, Frame.append]

/-- A block of lines that stand alone is read up to its closing bracket, and holds what they come
to. -/
theorem readBlock_of_standsAlone {s : Source} {b : Bracket} {lines rest : List String}
    {closing : String} (hs : s.rest = lines ++ closing :: rest)
    (h : ∀ line ∈ lines, StandsAlone line) (hclosing : rightBracket? closing = some b) (t : Table) :
    readBlock s t b =
      ⟨⟨s.file, closing :: (lines.reverse ++ s.seen), rest⟩,
        (Gathered.ofLines b.isParallel t lines).table,
        ⟨(Gathered.ofLines b.isParallel t lines).records,
          .ok ⟨(Gathered.ofLines b.isParallel t lines).items, b.isParallel⟩⟩⟩ := by
  unfold readBlock
  rw [hs, readNest_append_lines rfl h, readNest, Nest.step_closing rfl rfl hclosing]
  simp only [Nest.new, Frame.block_append, Frame.block_new]
  simp [Reading.withRecords, Frame.new, Block.append, Block.empty]

/-- The lines of a text have the blanks around them that they were written with, but for a carriage
return. -/
theorem exists_lines_of_unlines {lines : List String} {closing : String}
    (hrows : ∀ line ∈ lines, '\n' ∉ line.toList) (hclosing : '\n' ∉ closing.toList) :
    ∃ lines' last, Text.lines (Text.unlines (lines ++ [closing])) = lines' ++ [last] ∧
      lines'.map trimmed = lines.map trimmed ∧ trimmed last = trimmed closing := by
  have hall : ∀ row ∈ lines ++ [closing], '\n' ∉ row.toList :=
    List.forall_mem_append.2 ⟨hrows, List.forall_mem_singleton.2 hclosing⟩
  have hread := map_trimmed_lines_unlines hall
  rw [List.map_append] at hread
  obtain ⟨lines', tail, hsplit, hlines', htail⟩ := List.map_eq_append_iff.1 hread
  obtain ⟨last, rfl, hlast⟩ := List.map_eq_singleton_iff.1 htail
  exact ⟨lines', last, hsplit, hlines', hlast⟩

/-- **The default block.** Command lines that need no further line and are no brackets make up a
default block, and new blocks behind it, that are the block and the new blocks read from a text of
these lines and a closing bracket; the log says the same. -/
theorem setDefaultLines_eq_readBlock {s : Source} (parallel q : Bool) {lines : List String}
    (hrows : ∀ line ∈ lines, '\n' ∉ line.toList)
    (hcomplete : ∀ line ∈ lines, ∃ statements, Shell.tokenize (trimmed line) = .complete statements)
    (hbracket : ∀ line ∈ lines, ¬IsBracketText (trimmed line))
    (hs : s.rest = Text.lines (Text.unlines (lines ++ [(Bracket.ofParallel parallel).closing]))) :
    ∃ behind block table records p,
      readBlock s (Pipeline.empty q).blocks (.ofParallel parallel) =
        ⟨behind, table, ⟨records, .ok block⟩⟩ ∧
      (Pipeline.empty q).setDefaultLines parallel lines = ⟨records, .ok p⟩ ∧
      p.defaultBlock = .ok block ∧ p.blocks.size = table.size ∧
      ∀ i, 1 ≤ i → p.blocks[i]? = table[i]? := by
  have hfeed : '\n' ∉ (Bracket.ofParallel parallel).closing.toList := by
    cases parallel <;> decide
  obtain ⟨lines', last, hread, hlines, hlast⟩ := exists_lines_of_unlines hrows hfeed
  have halone : ∀ line ∈ lines', StandsAlone line := by
    intro line' hline'
    have hmem : trimmed line' ∈ lines.map trimmed := hlines ▸ List.mem_map_of_mem hline'
    obtain ⟨line, hline, htrimmed⟩ := List.mem_map.1 hmem
    refine standsAlone_of_trimmed ⟨?_, hcomplete line hline, hbracket line hline⟩ htrimmed.symm
    rw [Text.toList_trimmed]
    exact fun hfeed => hrows line hline (Text.mem_of_mem_trim hfeed)
  have hclosing : rightBracket? last = some (.ofParallel parallel) := by
    rw [← rightBracket?_trimmed, hlast]
    cases parallel <;> decide
  have hblock := readBlock_of_standsAlone (hs.trans hread) halone hclosing (Pipeline.empty q).blocks
  rw [Bracket.isParallel_ofParallel, Gathered.ofLines_congr hlines] at hblock
  have hsize : Pipeline.defaultIndex <
      (Gathered.ofLines parallel (Pipeline.empty q).blocks lines).table.size :=
    (Gathered.keeps_ofLines parallel (Pipeline.empty q).blocks lines).size_le
  refine ⟨_, _, _, _, _, hblock, Pipeline.setDefaultLines_empty rfl, ?_, ?_, fun i hi => ?_⟩
  · apply Pipeline.defaultBlock_of_getElem?
    rw [Array.getElem?_modify, if_pos rfl, Array.getElem?_eq_getElem hsize]
    rfl
  · exact Array.size_modify
  · rw [Array.getElem?_modify]
    exact if_neg (Nat.ne_of_lt hi)

/-- Lines with a comment, blanks, a line end of two characters, several statements, a redirection
and a line that stays whole. -/
def givenLines : List String :=
  ["  # all; \\\r", "", "a; b", "\tmake x>&2 # note ", "\x7b d; e; \x7d", "f 1;\r"]

/-- The same lines in a document, behind the opening bracket. -/
def givenSource : Source :=
  ⟨"doc.pipe", ["\x7b\x7b"],
    ["  # all; \\", "", "a; b", "\tmake x>&2 # note ", "\x7b d; e; \x7d", "f 1;", "\x7d\x7d"]⟩

theorem setDefaultLines_eq_readBlock_givenLines :
    givenSource.rest =
        Text.lines (Text.unlines (givenLines ++ [(Bracket.ofParallel true).closing])) ∧
      ∃ behind block table records p,
        readBlock givenSource #[.empty false] .parallel = ⟨behind, table, ⟨records, .ok block⟩⟩ ∧
        (Pipeline.empty false).setDefaultLines true givenLines = ⟨records, .ok p⟩ ∧
        p.defaultBlock = .ok block ∧ p.blocks.size = table.size ∧
        ∀ i, 1 ≤ i → p.blocks[i]? = table[i]? := by
  have hrows : ∀ line ∈ givenLines, '\n' ∉ line.toList := by decide +kernel
  have hcomplete : ∀ line ∈ givenLines,
      ∃ statements, Shell.tokenize (trimmed line) = .complete statements := by
    decide +kernel
  have hbracket : ∀ line ∈ givenLines, ¬IsBracketText (trimmed line) := by decide +kernel
  have hs : givenSource.rest =
      Text.lines (Text.unlines (givenLines ++ [(Bracket.ofParallel true).closing])) := by
    decide +kernel
  exact ⟨hs, setDefaultLines_eq_readBlock true false hrows hcomplete hbracket hs⟩

end Document

end Runbook
