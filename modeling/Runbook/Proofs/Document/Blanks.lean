import Mathlib.Data.List.Forall2
import Runbook.Proofs.Document.Forest
import Runbook.Proofs.Text.Trim

/-!
# Blanks around lines

Every recogniser finds in a line what it finds in the trimmed line, and so does each step of the
loader, in an open quote and behind a backslash as well (`State.step_trimmed`). A document therefore
loads as its trimmed lines do (`loadLines_map_trimmed`): neither indentation nor trailing blanks nor
the style of its line ends shows in the result, in an error or in the log.
-/

namespace Runbook

open Text (trim trimStart trimEnd trimmed isBlank)

namespace Document

/-! ## Recognisers -/

theorem after?_trimEnd {lead : List Char} (hlead : ∀ c ∈ lead, isBlank c = false)
    (cs : List Char) : after? lead (trimEnd cs) = (after? lead cs).map trimEnd := by
  induction lead generalizing cs with
  | nil => rfl
  | cons l lead ih =>
    obtain ⟨hl, hlead⟩ := List.forall_mem_cons.1 hlead
    cases cs with
    | nil => rfl
    | cons c cs =>
      by_cases hc : l = c
      · subst hc
        rw [Text.trimEnd_cons hl]
        simp [after?, ih hlead]
      · have hstart : after? (l :: lead) (trimEnd (c :: cs)) = none := by
          have hprefix := Text.trimEnd_isPrefix_self (c :: cs)
          generalize trimEnd (c :: cs) = ds at hprefix
          cases ds with
          | nil => rfl
          | cons d ds =>
            obtain ⟨rfl, -⟩ := List.cons_prefix_cons.1 hprefix
            simp [after?, hc]
        simp [hstart, after?, hc]

variable (line : String)

@[simp] theorem isEmptyLine_trimmed : isEmptyLine (trimmed line) = isEmptyLine line := by
  simp [isEmptyLine]

@[simp] theorem isCommentLine_trimmed : isCommentLine (trimmed line) = isCommentLine line := by
  simp [isCommentLine, Text.head?_trim]

@[simp] theorem isAttributeLine_trimmed :
    isAttributeLine (trimmed line) = isAttributeLine line := by
  have hmark : ∀ c ∈ ['#', '@'], isBlank c = false :=
    List.forall_mem_cons.2 ⟨by decide, List.forall_mem_singleton.2 (by decide)⟩
  unfold isAttributeLine
  rw [Text.toList_trimmed, Text.trimStart_trim, trim, after?_trimEnd hmark, Option.isSome_map]

@[simp] theorem attribute?_trimmed : attribute? (trimmed line) = attribute? line := by
  simp [attribute?]

@[simp] theorem leftBracket?_trimmed : leftBracket? (trimmed line) = leftBracket? line := by
  simp [leftBracket?]

@[simp] theorem rightBracket?_trimmed : rightBracket? (trimmed line) = rightBracket? line := by
  simp [rightBracket?]

@[simp] theorem includeTarget?_trimmed : includeTarget? (trimmed line) = includeTarget? line := by
  simp [includeTarget?]

@[simp] theorem header?_trimmed : header? (trimmed line) = header? line := by
  simp [header?]

@[simp] theorem assignment?_trimmed : assignment? (trimmed line) = assignment? line := by
  simp [assignment?]

@[simp] theorem classify_trimmed : classify (trimmed line) = classify line := by
  simp [classify]

end Document

namespace Shell

variable (text line : String)

@[simp] theorem firstLine_trimmed : firstLine (trimmed line) = firstLine line := by
  simp [firstLine]

/-- A further line of a command is trimmed too, whether it goes on behind a backslash or inside
quotes. -/
@[simp] theorem joinLine_trimmed : joinLine text (trimmed line) = joinLine text line := by
  simp [joinLine]

end Shell

namespace Document

/-! ## Steps -/

@[simp] theorem Nest.step_trimmed (n : Nest) (t : Table) (pos : Position) (line : String) :
    n.step t pos (trimmed line) = n.step t pos line := by
  simp [Nest.step]

namespace State

variable (s : State) (c : Setting)

@[simp] theorem readAttribute_trimmed (pos : Position) (line : String) :
    s.readAttribute pos (trimmed line) = s.readAttribute pos line := by
  simp [readAttribute]

@[simp] theorem step_trimmed (pos : Position) (line : String) :
    s.step c pos (trimmed line) = s.step c pos line := by
  cases hmode : s.mode with
  | idle => simp [step, hmode, stepIdle]
  | command text => simp [step, hmode]
  | header d => simp [step, hmode, stepHeader]
  | body owner n => simp [step, hmode, stepBody]

theorem run_map_trimmed (file : String) (n : Nat) (lines : List String) :
    s.run c file n (lines.map trimmed) = s.run c file n lines := by
  induction lines generalizing s n with
  | nil => rfl
  | cons line lines ih => simp [run, ih]

end State

/-! ## Documents -/

theorem loadLines_map_trimmed (c : Setting) (file : String) (lines : List String) :
    loadLines c file (lines.map trimmed) = loadLines c file lines := by
  simp [loadLines, State.run_map_trimmed]

/-- **Layout of lines.** Two texts whose lines are the same one by one, but for the blanks around
each, load alike: to the same pipeline and variables or to the same error, with the same log. -/
theorem loadText_eq_of_trimmed {c : Setting} {file text text' : String}
    (h : List.Forall₂ (fun line line' => trimmed line = trimmed line') (Text.lines text)
      (Text.lines text')) :
    loadText c file text = loadText c file text' := by
  have hlines : (Text.lines text).map trimmed = (Text.lines text').map trimmed := by
    rw [← List.forall₂_eq_eq_eq, List.forall₂_map_left_iff, List.forall₂_map_right_iff]
    exact h
  unfold loadText
  rw [← loadLines_map_trimmed, hlines, loadLines_map_trimmed]

/-- A document whose last command goes on inside quotes and behind a backslash. -/
def tidyDocument : String :=
  "#@ desc: all\nrun() \x7b\n  echo 'a\n  b' \\\n  c\n\x7d\nx = 1\n"

/-- The same lines with other blanks around them and other line ends. -/
def raggedDocument : String :=
  "\t#@ desc: all  \r\n\u2003run() \x7b\r\necho 'a \t\r\n\u00a0\u00a0b' \\\n\t\tc\n\x7d \n x = 1"

def tidyLoaded : Loaded where
  pipeline :=
    ⟨#[.empty false, ⟨[.ofLine "echo 'a\nb' c"], false⟩],
      .ofList [("run", ⟨"run", 1, [("desc", "all")]⟩)], .ofList [("run", ⟨"doc.pipe", 2⟩)]⟩
  assigned := .ofList [("x", "1")]

theorem loadText_eq_of_trimmed_raggedDocument :
    List.Forall₂ (fun line line' => trimmed line = trimmed line') (Text.lines tidyDocument)
        (Text.lines raggedDocument) ∧
      (loadText .alone "doc.pipe" tidyDocument).result = .ok tidyLoaded ∧
      (loadText .alone "doc.pipe" raggedDocument).result = .ok tidyLoaded := by
  have hlines : List.Forall₂ (fun line line' => trimmed line = trimmed line')
      (Text.lines tidyDocument) (Text.lines raggedDocument) := by
    decide +kernel
  have htidy : (loadText .alone "doc.pipe" tidyDocument).result = .ok tidyLoaded := by
    decide +kernel
  refine ⟨hlines, htidy, ?_⟩
  rw [← loadText_eq_of_trimmed hlines, htidy]

/-! ## Rows of a written text -/

/-- A line that is a row with blanks around it. A carriage return at its end counts as one. -/
def Surrounds (row line : String) : Prop :=
  ∃ before after : List Char, line.toList = before ++ row.toList ++ after ∧
    ∀ c ∈ before ++ after, isBlank c = true ∧ c ≠ '\n'

theorem Surrounds.trimmed_eq {row line : String} (h : Surrounds row line) :
    trimmed line = trimmed row := by
  obtain ⟨before, after, hline, hblank⟩ := h
  have hbefore : ∀ c ∈ before, isBlank c = true := fun c hc =>
    (hblank c (List.mem_append_left _ hc)).1
  have hafter : ∀ c ∈ after, isBlank c = true := fun c hc =>
    (hblank c (List.mem_append_right _ hc)).1
  apply String.toList_injective
  rw [Text.toList_trimmed, Text.toList_trimmed, hline, Text.trim_append_blank hafter,
    Text.trim_append_of_blank hbefore]

theorem Surrounds.not_mem {row line : String} (h : Surrounds row line)
    (hrow : '\n' ∉ row.toList) : '\n' ∉ line.toList := by
  obtain ⟨before, after, hline, hblank⟩ := h
  rw [hline, List.append_assoc, List.mem_append, List.mem_append]
  rintro (hmem | hmem | hmem)
  · exact (hblank _ (List.mem_append_left _ hmem)).2 rfl
  · exact hrow hmem
  · exact (hblank _ (List.mem_append_right _ hmem)).2 rfl

theorem trim_closeLine (rev : List Char) : trim (Text.closeLine rev) = trim rev.reverse := by
  cases rev with
  | nil => rfl
  | cons c rev =>
    by_cases hc : c = '\r'
    · subst hc
      have hreturn : ∀ c ∈ ['\r'], isBlank c = true := List.forall_mem_singleton.2 (by decide)
      rw [Text.closeLine, if_pos rfl, List.reverse_cons, Text.trim_append_blank hreturn]
    · rw [Text.closeLine, if_neg hc]

theorem map_trimmed_lines_unlines {rows : List String} (h : ∀ row ∈ rows, '\n' ∉ row.toList) :
    (Text.lines (Text.unlines rows)).map trimmed = rows.map trimmed := by
  induction rows with
  | nil => rfl
  | cons row rows ih =>
    obtain ⟨hrow, hrows⟩ := List.forall_mem_cons.1 h
    have htext : (Text.unlines (row :: rows)).toList =
        row.toList ++ '\n' :: (Text.unlines rows).toList := by
      simp
    have hfirst : trimmed (String.ofList (Text.closeLine row.toList.reverse)) = trimmed row := by
      apply String.toList_injective
      simp [trim_closeLine]
    unfold Text.lines at ih ⊢
    rw [htext, Text.linesFrom_row hrow, List.append_nil, List.map_cons, List.map_cons, hfirst,
      ih hrows, List.map_cons]

/-- A text may be indented, padded and ended line by line as one likes. -/
theorem loadText_unlines_of_surrounds {rows lines : List String} (c : Setting) (file : String)
    (hrows : ∀ row ∈ rows, '\n' ∉ row.toList) (h : List.Forall₂ Surrounds rows lines) :
    loadText c file (Text.unlines lines) = loadText c file (Text.unlines rows) := by
  have hlines : lines.map trimmed = rows.map trimmed ∧ ∀ line ∈ lines, '\n' ∉ line.toList := by
    induction h with
    | nil => exact ⟨rfl, hrows⟩
    | cons hfirst _ ih =>
      obtain ⟨hrow, hrows⟩ := List.forall_mem_cons.1 hrows
      obtain ⟨htrimmed, hlines⟩ := ih hrows
      refine ⟨?_, List.forall_mem_cons.2 ⟨hfirst.not_mem hrow, hlines⟩⟩
      rw [List.map_cons, List.map_cons, hfirst.trimmed_eq, htrimmed]
  unfold loadText
  rw [← loadLines_map_trimmed, map_trimmed_lines_unlines hlines.2, hlines.1,
    ← map_trimmed_lines_unlines hrows, loadLines_map_trimmed]

end Document

end Runbook
