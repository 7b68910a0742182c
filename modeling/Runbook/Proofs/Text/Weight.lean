import Runbook.Proofs.Text.Physical
import Runbook.Shell.Joining

/-!
# How long a command can become

A line adds to a command its trimmed characters and the line feed before them (`weight`). The lines
of a row weigh no more than the row and one line feed, and of the blanks before the row none weighs
anything (`weights_physicalLines_le`).
-/

namespace Runbook

namespace Text

/-- What a line adds to a command at most. -/
def weight (line : String) : Nat :=
  (trim line.toList).length + 1

def weights : List String → Nat
  | [] => 0
  | line :: lines => weight line + weights lines

@[simp] theorem weights_nil : weights [] = 0 := rfl

@[simp] theorem weights_cons (line : String) (lines : List String) :
    weights (line :: lines) = weight line + weights lines := rfl

theorem weight_pos (line : String) : 0 < weight line :=
  Nat.succ_pos _

theorem length_trim_le (cs : List Char) : (trim cs).length ≤ cs.length :=
  (trim_isInfix cs).length_le

theorem length_closeLine_le (rev : List Char) : (closeLine rev).length ≤ rev.length := by
  cases rev with
  | nil => exact Nat.le_refl 0
  | cons c rev =>
    rw [closeLine]
    split <;> simp

theorem trim_eq_nil_of_blank {cs : List Char} (h : ∀ c ∈ cs, isBlank c = true) : trim cs = [] := by
  have happend := trim_append_of_blank h []
  rw [List.append_nil] at happend
  exact happend

theorem length_trim_closeLine_le {bs : List Char} (hbs : ∀ c ∈ bs, isBlank c = true)
    (rev : List Char) : (trim (closeLine (rev ++ bs))).length ≤ rev.length := by
  by_cases hrev : rev = []
  · have hblank : ∀ c ∈ closeLine (rev ++ bs), isBlank c = true := by
      intro c hc
      rw [hrev] at hc
      exact hbs c (mem_closeLine hc)
    rw [trim_eq_nil_of_blank hblank]
    exact Nat.zero_le _
  · rw [closeLine_append hrev, trim_append_of_blank fun c hc => hbs c (List.mem_reverse.1 hc)]
    exact Nat.le_trans (length_trim_le _) (length_closeLine_le rev)

theorem weights_linesFrom_le {bs : List Char} (hbs : ∀ c ∈ bs, isBlank c = true)
    (rev cs : List Char) :
    weights ((linesFrom (rev ++ bs) (cs ++ ['\n'])).map String.ofList) ≤
      rev.length + cs.length + 1 := by
  have hline (rev bs : List Char) (hbs : ∀ c ∈ bs, isBlank c = true) :
      weight (String.ofList (closeLine (rev ++ bs))) ≤ rev.length + 1 := by
    unfold weight
    rw [String.toList_ofList]
    exact Nat.succ_le_succ (length_trim_closeLine_le hbs rev)
  induction cs generalizing rev bs with
  | nil =>
    have hrest : linesFrom [] [] = [] := rfl
    rw [List.nil_append, linesFrom, if_pos rfl, hrest, List.map_singleton, weights_cons,
      weights_nil]
    exact hline rev bs hbs
  | cons c cs ih =>
    rw [List.cons_append, linesFrom]
    split
    · have hnil : ∀ c ∈ ([] : List Char), isBlank c = true := by simp
      have hrest := ih hnil []
      rw [List.nil_append] at hrest
      have hfirst := hline rev bs hbs
      rw [List.map_cons, weights_cons]
      simp only [List.length_nil, List.length_cons] at hrest ⊢
      omega
    · have hrest := ih hbs (c :: rev)
      rw [List.cons_append] at hrest
      simp only [List.length_cons] at hrest ⊢
      omega

theorem linesFrom_append {xs : List Char} (h : '\n' ∉ xs) (rev ys : List Char) :
    linesFrom rev (xs ++ ys) = linesFrom (xs.reverse ++ rev) ys := by
  induction xs generalizing rev with
  | nil => rfl
  | cons x xs ih =>
    obtain ⟨hx, hxs⟩ := not_or.1 (mt List.mem_cons.2 h)
    rw [List.cons_append, linesFrom, if_neg (Ne.symm hx), ih hxs, List.reverse_cons,
      List.append_assoc, List.singleton_append]

/-- **Weights.** The lines of a row weigh no more than the row and a line feed, and blanks before
the row weigh nothing. -/
theorem weights_physicalLines_le {indent : String} (hblank : ∀ c ∈ indent.toList, isBlank c = true)
    (hfeed : '\n' ∉ indent.toList) (row : String) :
    weights (physicalLines (indent ++ row)) ≤ row.toList.length + 1 := by
  have hrow : (indent ++ row ++ "\n").toList = indent.toList ++ (row.toList ++ ['\n']) := by simp
  have hreverse : ∀ c ∈ indent.toList.reverse, isBlank c = true :=
    fun c hc => hblank c (List.mem_reverse.1 hc)
  have hweights := weights_linesFrom_le hreverse [] row.toList
  unfold physicalLines lines
  rw [hrow, linesFrom_append hfeed, List.append_nil]
  simpa using hweights

end Text

namespace Shell

/-- What an unfinished command passes on to the text with the next line. -/
def carried (text : String) : Nat :=
  if text.toList.getLast? = some '\\' then text.toList.length - 1 else text.toList.length + 1

theorem length_firstLine (line : String) :
    (firstLine line).toList.length + 1 = Text.weight line := by
  unfold firstLine Text.weight
  rw [Text.toList_trimmed]

theorem length_joinLine (text line : String) :
    (joinLine text line).toList.length + 1 = carried text + Text.weight line := by
  unfold joinLine carried Text.weight
  dsimp only
  split <;> simp <;> omega

theorem carried_le (text : String) : carried text ≤ text.toList.length + 1 := by
  unfold carried
  split <;> omega

end Shell

end Runbook
