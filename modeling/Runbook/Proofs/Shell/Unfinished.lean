import Runbook.Proofs.Shell.Outcomes

/-!
# Commands that a line feed does not end

A text that ends inside quotes is no command when a line feed follows either; behind a backslash a
line feed completes it (`not_complete_lineFeed`). A comment has no statement.
-/

namespace Runbook.Shell

/-- In single or double quotes, and not in an escape. -/
def Mode.IsQuote : Mode → Prop
  | .single _ | .double _ => True
  | _ => False

namespace State

variable {s t : State} {c : Char}

theorem eq_backslash_of_step (h : s.step c = .ok t) (hmode : t.mode = .escape) : c = '\\' := by
  cases consumes_of_step h with
  | joins _ _ _ hbare => exact hbare hmode
  | separates u _ heq =>
    subst heq
    cases hmode

theorem getLast?_of_escape {cs : List Char} (hrun : s.run cs = .ok t) (hne : cs ≠ [])
    (hmode : t.mode = .escape) : cs.getLast? = some '\\' := by
  rw [← List.dropLast_concat_getLast hne] at hrun ⊢
  obtain ⟨u, -, hstep⟩ := exists_of_run_concat hrun
  rw [List.getLast?_concat, eq_backslash_of_step hstep hmode]

theorem ne_escape_of_run {cs : List Char} (hrun : start.run cs = .ok t)
    (hlast : cs.getLast? ≠ some '\\') : t.mode ≠ .escape := by
  intro hmode
  have hne : cs ≠ [] := by
    rintro rfl
    obtain rfl := Except.ok.inj hrun
    cases hmode
  exact hlast (getLast?_of_escape hrun hne hmode)

/-- Where no statement may end, a line feed is read inside quotes and behind a backslash only: in an
escape it is refused. -/
theorem isQuote_of_step_lineFeed (hlast : s.lastWord? = none) (hmode : s.mode ≠ .escape)
    (hstep : s.step '\n' = .ok t) : s.mode.IsQuote := by
  have hquoted (start : Nat) (rev : List Piece) :
      s.stepQuotedEscape start rev '\n' ≠ .ok t := by
    rintro ⟨⟩
  unfold lastWord? at hlast
  unfold step at hstep
  split at hstep <;> rename_i hm <;> rw [hm] at hlast
  · cases hlast
  · cases hlast
  · cases hlast
  · cases hlast
  · exact absurd hm hmode
  · rw [hm]
    trivial
  · rw [hm]
    trivial
  · exact absurd hstep (hquoted _ _)
  · rw [if_neg (Radix.not_digit_lineFeed _)] at hstep
    cases hstep
  · rw [if_neg (Radix.not_digit_lineFeed _)] at hstep
    cases hstep

theorem lastWord?_of_isQuote (h : s.mode.IsQuote) : s.lastWord? = none := by
  unfold lastWord?
  cases hmode : s.mode <;> rw [hmode] at h <;> first | rfl | cases h

/-- Inside quotes a line feed ends nothing. -/
theorem lastWord?_lineFeed (hlast : s.lastWord? = none) (hmode : s.mode ≠ .escape)
    (hstep : s.step '\n' = .ok t) : t.lastWord? = none := by
  have hquote := isQuote_of_step_lineFeed hlast hmode hstep
  apply lastWord?_of_isQuote
  unfold step at hstep
  cases hm : s.mode <;> rw [hm] at hstep hquote <;> dsimp only at hstep
  case single rev =>
    rw [if_neg (by decide)] at hstep
    obtain rfl := Except.ok.inj hstep
    trivial
  case double rev =>
    rw [if_neg (by decide), if_neg (by decide)] at hstep
    obtain rfl := Except.ok.inj hstep
    trivial
  all_goals cases hquote

end State

/-- A line feed behind an unfinished text completes it behind a backslash only. -/
theorem not_complete_lineFeed {text : String} (h : tokenize text = .unfinished)
    (hlast : text.toList.getLast? ≠ some '\\') (statements : List Statement) :
    tokenize (text ++ "\n") ≠ .complete statements := by
  intro hcomplete
  obtain ⟨s, hrun, hunclosed⟩ := scan_eq_unfinished_iff.1 h
  obtain ⟨t, u, hlineFeed, hu, -⟩ := scan_eq_complete_iff.1 hcomplete
  rw [String.toList_append] at hlineFeed
  obtain ⟨s', hs', hstep⟩ := State.exists_of_run_concat hlineFeed
  obtain rfl : s' = s := Except.ok.inj (hs'.symm.trans hrun)
  have hmode : s'.mode ≠ .escape := State.ne_escape_of_run hrun hlast
  cases (State.lastWord?_lineFeed hunclosed hmode hstep).symm.trans hu

/-! ## Comments -/

theorem run_comment {s : State} {cs : List Char} (hmode : s.mode = .comment) (h : '\n' ∉ cs) :
    s.run cs = .ok (s.advanceOver cs) := by
  induction cs generalizing s with
  | nil => rfl
  | cons c cs ih =>
    obtain ⟨hc, hcs⟩ := not_or.1 (mt List.mem_cons.2 h)
    have hstep : s.step c = .ok (s.advance c) := by
      rw [State.step, hmode]
      exact if_neg (Ne.symm hc)
    rw [State.run_cons_ok hstep]
    exact ih (s := s.advance c) hmode hcs

theorem finish_comment {s : State} (hmode : s.mode = .comment) (hword : s.word = [])
    (hwords : s.words = []) : s.finish = .complete s.statements.reverse := by
  have hend : s.endWord.endStatement = s := by
    rw [State.endWord_of_word hword]
    unfold State.endStatement
    rw [hwords]
    rfl
  unfold State.finish State.finish?
  simp only [hmode, hend]

/-- A comment on one line has no statement. -/
theorem scan_comment {cs : List Char} (h : '\n' ∉ cs) : scan ('#' :: cs) = .complete [] := by
  have hstep : State.start.step '#' = .ok ((State.start.enter .comment).advance '#') := rfl
  unfold scan
  rw [State.run_cons_ok hstep, run_comment rfl h]
  show State.finish _ = _
  rw [finish_comment (by simp [State.advance, State.enter])
    (by simp [State.advance, State.enter, State.start])
    (by simp [State.advance, State.enter, State.start])]
  simp [State.advance, State.enter, State.start]

end Runbook.Shell
