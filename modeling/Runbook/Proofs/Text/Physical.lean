import Runbook.Proofs.Text.Trim
import Runbook.Text.Lines

/-!
# Physical lines of written rows

A row may hold line feeds, inside quotes; then it is read as several physical lines. The lines of a
written text are those of its rows, one row after the other (`lines_unlines_flatMap`), and blanks
before a row go to its first line (`physicalLines_indent`).
-/

namespace Runbook.Text

/-- The lines a row is read as. -/
def physicalLines (row : String) : List String :=
  lines (row ++ "\n")

theorem lines_append_row (row text : String) :
    lines (row ++ "\n" ++ text) = physicalLines row ++ lines text := by
  have hsplit : (row ++ "\n" ++ text).toList = row.toList ++ '\n' :: text.toList := by simp
  have hrow : (row ++ "\n").toList = row.toList ++ ['\n'] := by simp
  unfold physicalLines lines
  rw [hsplit, hrow, linesFrom_append_lineFeed, List.map_append]

theorem lines_unlines_flatMap (rows : List String) :
    lines (unlines rows) = rows.flatMap physicalLines := by
  induction rows with
  | nil => rfl
  | cons row rows ih => rw [unlines_cons, lines_append_row, ih, List.flatMap_cons]

theorem physicalLines_of_isRow {row : String} (h : IsRow row.toList) :
    physicalLines row = [row] := by
  have hlines : lines (unlines [row]) = [row] := lines_unlines (by simpa using h)
  rw [unlines_cons, unlines_nil, String.append_empty] at hlines
  exact hlines

/-- A text that ends with a line, if it has any. -/
def EndsLine (text : String) : Prop :=
  ∀ c ∈ text.toList.getLast?, c = '\n'

instance (text : String) : Decidable (EndsLine text) :=
  decidable_of_iff (text.toList.getLast?.all (· == '\n') = true) (by
    unfold EndsLine
    cases text.toList.getLast? <;> simp)

theorem lines_append {first : String} (h : EndsLine first) (second : String) :
    lines (first ++ second) = lines first ++ lines second := by
  rcases List.eq_nil_or_concat first.toList with hnil | ⟨cs, c, hcs⟩
  · obtain rfl : first = "" := by simpa using hnil
    rfl
  · obtain rfl : c = '\n' := h c (by simp [hcs])
    obtain rfl : first = String.ofList cs ++ "\n" := by
      apply String.toList_injective
      simp [hcs]
    exact lines_append_row _ _

/-! ## Line feeds -/

theorem mem_closeLine {c : Char} {rev : List Char} (h : c ∈ closeLine rev) : c ∈ rev := by
  cases rev with
  | nil => exact h
  | cons d rev =>
    rw [closeLine] at h
    split at h
    · exact List.mem_cons_of_mem _ (List.mem_reverse.1 h)
    · exact List.mem_reverse.1 h

theorem lineFeed_not_mem_linesFrom {rev cs : List Char} (hrev : '\n' ∉ rev) :
    ∀ line ∈ linesFrom rev cs, '\n' ∉ line := by
  induction cs generalizing rev with
  | nil =>
    rw [linesFrom]
    split
    · exact fun line hline => absurd hline List.not_mem_nil
    · intro line hline
      rw [List.mem_singleton.1 hline, List.mem_reverse]
      exact hrev
  | cons c cs ih =>
    rw [linesFrom]
    split
    · refine List.forall_mem_cons.2 ⟨fun h => hrev (mem_closeLine h), ih List.not_mem_nil⟩
    · next hc =>
      apply ih
      rw [List.mem_cons, not_or]
      exact ⟨Ne.symm hc, hrev⟩

theorem lineFeed_not_mem_of_mem_lines {text line : String} (h : line ∈ lines text) :
    '\n' ∉ line.toList := by
  obtain ⟨cs, hcs, rfl⟩ := List.mem_map.1 h
  rw [String.toList_ofList]
  exact lineFeed_not_mem_linesFrom List.not_mem_nil cs hcs

/-! ## Blanks before a row -/

theorem closeLine_append {xs : List Char} (h : xs ≠ []) (rev : List Char) :
    closeLine (xs ++ rev) = rev.reverse ++ closeLine xs := by
  cases xs with
  | nil => exact absurd rfl h
  | cons c xs =>
    rw [List.cons_append, closeLine, closeLine]
    by_cases hc : c = '\r'
    · rw [if_pos hc, if_pos hc, List.reverse_append]
    · rw [if_neg hc, if_neg hc, ← List.cons_append, List.reverse_append]

/-- The first line of a text up to a line feed, and the text behind it. -/
theorem exists_firstLine (cs : List Char) :
    ∃ xs ys, '\n' ∉ xs ∧ cs ++ ['\n'] = xs ++ '\n' :: ys ∧ (xs = [] → cs.head?.all (· = '\n')) := by
  induction cs with
  | nil => exact ⟨[], [], List.not_mem_nil, rfl, by simp⟩
  | cons c cs ih =>
    by_cases hc : c = '\n'
    · exact ⟨[], cs ++ ['\n'], List.not_mem_nil, by rw [hc]; rfl, by simp [hc]⟩
    · obtain ⟨xs, ys, hxs, heq, -⟩ := ih
      refine ⟨c :: xs, ys, ?_, by rw [List.cons_append, heq, List.cons_append], by simp⟩
      rw [List.mem_cons, not_or]
      exact ⟨Ne.symm hc, hxs⟩

/-- Blanks before a row that starts with no blank belong to its first line. -/
theorem physicalLines_indent {indent line : String} (hindent : '\n' ∉ indent.toList)
    (hne : line.toList ≠ []) (hhead : ∀ c, line.toList.head? = some c → isBlank c = false) :
    ∃ first rest, physicalLines line = first :: rest ∧
      physicalLines (indent ++ line) = (indent ++ first) :: rest := by
  obtain ⟨xs, ys, hxs, heq, hempty⟩ := exists_firstLine line.toList
  have hxsne : xs ≠ [] := by
    intro hnil
    obtain ⟨c, cs, hline⟩ := List.exists_cons_of_ne_nil hne
    have hc := hhead c (by rw [hline]; rfl)
    have hfeed := hempty hnil
    rw [hline, List.head?_cons, Option.all_some, decide_eq_true_eq] at hfeed
    rw [hfeed] at hc
    exact absurd hc (by decide)
  have hfirst : (line ++ "\n").toList = xs ++ '\n' :: ys := by
    rw [← heq]
    simp
  have hwhole : (indent ++ line ++ "\n").toList = (indent.toList ++ xs) ++ '\n' :: ys := by
    rw [List.append_assoc, ← heq]
    simp
  refine ⟨String.ofList (closeLine xs.reverse), (linesFrom [] ys).map String.ofList, ?_, ?_⟩
  · unfold physicalLines lines
    rw [hfirst, linesFrom_row hxs, List.append_nil, List.map_cons]
  · unfold physicalLines lines
    have hmem : '\n' ∉ indent.toList ++ xs := by
      rw [List.mem_append, not_or]
      exact ⟨hindent, hxs⟩
    rw [hwhole, linesFrom_row hmem, List.append_nil, List.reverse_append,
      closeLine_append (by simpa using hxsne), List.reverse_reverse, List.map_cons,
      String.ofList_append, String.ofList_toList]

/-! ## Rows that end in no blank -/

theorem linesFrom_append_end {rev cs : List Char} (hne : rev.reverse ++ cs ≠ [])
    (hlast : ∀ c, (rev.reverse ++ cs).getLast? = some c → isBlank c = false) :
    linesFrom rev (cs ++ ['\n']) = linesFrom rev cs := by
  induction cs generalizing rev with
  | nil =>
    rw [List.append_nil] at hne hlast
    have hreturn : rev.reverse.getLast? ≠ some '\r' := by
      intro h
      exact absurd (hlast _ h) (by decide)
    have hclose := closeLine_reverse hreturn
    rw [List.reverse_reverse] at hclose
    have hrev : rev.isEmpty = false := by
      simpa using hne
    simp [linesFrom, hclose, hrev]
  | cons c cs ih =>
    rw [List.cons_append, linesFrom, linesFrom]
    by_cases hc : c = '\n'
    · have hcs : cs ≠ [] := by
        rintro rfl
        rw [hc, List.getLast?_append] at hlast
        exact absurd (hlast '\n' rfl) (by decide)
      rw [if_pos hc, if_pos hc, ih (by simpa using hcs)]
      intro d hd
      apply hlast d
      rw [List.getLast?_append, List.getLast?_cons]
      rw [List.reverse_nil, List.nil_append] at hd
      rw [hd]
      rfl
    · rw [if_neg hc, if_neg hc, ih]
      · simp
      · simpa using hlast

/-- A text that ends in no blank has the same lines with a line feed behind it. -/
theorem lines_eq_physicalLines {line : String} (hne : line.toList ≠ [])
    (hlast : ∀ c, line.toList.getLast? = some c → isBlank c = false) :
    lines line = physicalLines line := by
  have hfeed : (line ++ "\n").toList = line.toList ++ ['\n'] := by simp
  unfold physicalLines lines
  rw [hfeed, linesFrom_append_end (by simpa using hne) (by simpa using hlast)]

end Runbook.Text
