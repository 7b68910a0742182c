/-!
# Physical lines

A text falls into lines at its line feeds. A carriage return right before a line feed belongs to
the line end; the last line needs no end, and an empty rest after the last line feed is no line.
-/

namespace Runbook.Text

/-- The line whose characters, last one first, stand before a line feed. -/
def closeLine : List Char → List Char
  | [] => []
  | c :: rev => if c = '\r' then rev.reverse else (c :: rev).reverse

/-- The lines of `cs` when the characters `rev`, last one first, of the first line are known. -/
def linesFrom (rev : List Char) : List Char → List (List Char)
  | [] => if rev.isEmpty then [] else [rev.reverse]
  | c :: cs => if c = '\n' then closeLine rev :: linesFrom [] cs else linesFrom (c :: rev) cs

def lines (s : String) : List String :=
  (linesFrom [] s.toList).map String.ofList

/-- The text in which every row is followed by a line feed. -/
def unlines (rows : List String) : String :=
  String.join (rows.map (· ++ "\n"))

theorem linesFrom_append_lineFeed (rev xs ys : List Char) :
    linesFrom rev (xs ++ '\n' :: ys) = linesFrom rev (xs ++ ['\n']) ++ linesFrom [] ys := by
  induction xs generalizing rev with
  | nil => simp [linesFrom]
  | cons c xs ih =>
    by_cases hc : c = '\n'
    · simp [linesFrom, hc, ih]
    · simp [linesFrom, hc, ih]

@[simp] theorem unlines_nil : unlines [] = "" := rfl

@[simp] theorem unlines_cons (row : String) (rows : List String) :
    unlines (row :: rows) = row ++ "\n" ++ unlines rows := by
  simp [unlines]

@[simp] theorem unlines_append (xs ys : List String) :
    unlines (xs ++ ys) = unlines xs ++ unlines ys := by
  simp [unlines]

/-- A text that can stand as a line: no line feed in it, and no carriage return at its end. -/
def IsRow (cs : List Char) : Prop :=
  '\n' ∉ cs ∧ cs.getLast? ≠ some '\r'

theorem closeLine_reverse {cs : List Char} (h : cs.getLast? ≠ some '\r') :
    closeLine cs.reverse = cs := by
  cases hr : cs.reverse with
  | nil => simpa [closeLine] using hr.symm
  | cons c rev =>
    have hc : c ≠ '\r' := by
      rintro rfl
      exact h (by rw [List.getLast?_eq_head?_reverse, hr]; rfl)
    simp [closeLine, hc, ← hr]

theorem linesFrom_row {cs : List Char} (h : '\n' ∉ cs) (rev ys : List Char) :
    linesFrom rev (cs ++ '\n' :: ys) = closeLine (cs.reverse ++ rev) :: linesFrom [] ys := by
  induction cs generalizing rev with
  | nil => simp [linesFrom]
  | cons c cs ih =>
    obtain ⟨hc, hcs⟩ := not_or.1 (mt List.mem_cons.2 h)
    simp [linesFrom, Ne.symm hc, ih hcs]

/-- Rows are read back as the lines they were written as. -/
theorem lines_unlines {rows : List String} (h : ∀ row ∈ rows, IsRow row.toList) :
    lines (unlines rows) = rows := by
  induction rows with
  | nil => rfl
  | cons row rows ih =>
    obtain ⟨hrow, hrows⟩ := List.forall_mem_cons.1 h
    have hread := linesFrom_row hrow.1 [] (unlines rows).toList
    rw [List.append_nil, closeLine_reverse hrow.2] at hread
    simp only [lines, unlines_cons, String.toList_append] at ih ⊢
    rw [show row.toList ++ "\n".toList ++ (unlines rows).toList =
      row.toList ++ '\n' :: (unlines rows).toList by simp, hread]
    simp [ih hrows]

end Runbook.Text
