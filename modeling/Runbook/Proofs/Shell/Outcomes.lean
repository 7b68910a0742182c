import Runbook.Proofs.Shell.Steps

/-!
# What an outcome says of longer texts

A text is malformed exactly when no text that begins with it is a command, and every longer text
has the same fault then. A text that is unfinished becomes a command with the characters behind it
that close its quoting (`Mode.closing`). So the three outcomes tell apart what more characters can
do (`malformed_iff_forall_append`).
-/

namespace Runbook.Shell

/-! ## Outcomes of a scan -/

section

variable {cs ds : List Char} {s : State} {m : Malformed} {statements : List Statement}

theorem scan_of_run (h : State.start.run cs = .ok s) : scan cs = s.finish := by
  unfold scan
  rw [h]

theorem finish_of_lastWord? {u : State} (h : s.lastWord? = some u) :
    s.finish = .complete u.endStatement.statements.reverse := by
  unfold State.finish
  rw [State.finish?_eq, h]
  rfl

theorem finish_of_unclosed (h : s.lastWord? = none) : s.finish = .unfinished := by
  unfold State.finish
  rw [State.finish?_eq, h]
  rfl

theorem scan_cases (cs : List Char) :
    (∃ m, State.start.run cs = .error m ∧ scan cs = .malformed m) ∨
      ∃ s, State.start.run cs = .ok s ∧
        (s.lastWord? = none ∧ scan cs = .unfinished ∨
          ∃ u, s.lastWord? = some u ∧ scan cs = .complete u.endStatement.statements.reverse) := by
  cases hrun : State.start.run cs with
  | error m =>
    refine .inl ⟨m, rfl, ?_⟩
    unfold scan
    rw [hrun]
  | ok s =>
    refine .inr ⟨s, rfl, ?_⟩
    rw [scan_of_run hrun]
    cases hlast : s.lastWord? with
    | none => exact .inl ⟨rfl, finish_of_unclosed hlast⟩
    | some u => exact .inr ⟨u, rfl, finish_of_lastWord? hlast⟩

theorem scan_eq_malformed_iff : scan cs = .malformed m ↔ State.start.run cs = .error m := by
  obtain ⟨m', hrun, hscan⟩ | ⟨s, hrun, ⟨-, hscan⟩ | ⟨u, -, hscan⟩⟩ := scan_cases cs <;>
    simp [hrun, hscan]

theorem scan_eq_unfinished_iff : scan cs = .unfinished ↔
    ∃ s, State.start.run cs = .ok s ∧ s.lastWord? = none := by
  obtain ⟨m, hrun, hscan⟩ | ⟨s, hrun, ⟨hlast, hscan⟩ | ⟨u, hlast, hscan⟩⟩ := scan_cases cs <;>
    simp [*]

theorem scan_eq_complete_iff : scan cs = .complete statements ↔
    ∃ s u, State.start.run cs = .ok s ∧ s.lastWord? = some u ∧
      u.endStatement.statements.reverse = statements := by
  obtain ⟨m, hrun, hscan⟩ | ⟨s, hrun, ⟨hlast, hscan⟩ | ⟨u, hlast, hscan⟩⟩ := scan_cases cs <;>
    simp [*]

theorem scan_append_of_malformed (h : scan cs = .malformed m) (ds : List Char) :
    scan (cs ++ ds) = .malformed m := by
  rw [scan_eq_malformed_iff] at h ⊢
  rw [State.run_append, h]
  rfl

end

/-! ## Closing the quoting -/

/-- Characters behind which the scan stands outside quotes again. -/
def Mode.closing : Mode → List Char
  | .bare | .comment | .ampersand | .bar => []
  | .escape => ['\\']
  | .single _ => ['\x27']
  | .double _ => ['\x22']
  | .quotedEscape _ _ => ['t', '\x22']
  | .firstDigit _ _ _ => ['0', '0', '\x22']
  | .secondDigit _ _ _ _ => ['0', '\x22']

theorem Radix.isSome_digit?_zero (r : Radix) : (r.digit? '0').isSome = true := by
  cases r <;> decide

theorem Radix.not_digit_lineFeed (r : Radix) : ¬(r.digit? '\n').isSome = true := by
  cases r <;> decide

namespace State

theorem exists_run_closing (s : State) :
    ∃ t u, s.run s.mode.closing = .ok t ∧ t.lastWord? = some u := by
  have hbare {t : State} (h : t.mode = .bare) : t.lastWord? = some t.endWord := by
    unfold lastWord?
    rw [h]
  have hquote {t : State} {rev : List Piece} (h : t.mode = .double rev) :
      t.run ['\x22'] = .ok ((t.push (.double rev.reverse)).advance '\x22') := by
    rw [run, step, h]
    rfl
  cases hmode : s.mode with
  | bare => exact ⟨s, _, rfl, hbare hmode⟩
  | comment => exact ⟨s, s.endWord, rfl, by rw [lastWord?, hmode]⟩
  | ampersand => exact ⟨s, s.endWord.pushWord (.ofBare ['&']), rfl, by rw [lastWord?, hmode]⟩
  | bar => exact ⟨s, s.pushWord (.ofBare ['|']), rfl, by rw [lastWord?, hmode]⟩
  | escape =>
    have hstep : s.step '\\' = .ok ((s.push (.escaped '\\')).advance '\\') := by rw [step, hmode]
    exact ⟨_, _, run_cons_ok hstep [], hbare rfl⟩
  | single rev =>
    have hstep : s.step '\x27' = .ok ((s.push (.single rev.reverse)).advance '\x27') := by
      rw [step, hmode]
      rfl
    exact ⟨_, _, run_cons_ok hstep [], hbare rfl⟩
  | double rev => exact ⟨_, _, hquote hmode, hbare rfl⟩
  | quotedEscape start rev =>
    have hstep : s.step 't' = .ok ((s.enter (.double (.control .tab :: rev))).advance 't') := by
      rw [step, hmode]
      rfl
    exact ⟨_, _, (run_cons_ok hstep _).trans (hquote rfl), hbare rfl⟩
  | firstDigit start rev r =>
    have hfirst := step_firstDigit hmode r.isSome_digit?_zero
    have hsecond := step_secondDigit (s := (s.enter (.secondDigit start rev r '0')).advance '0') rfl
      r.isSome_digit?_zero
    exact ⟨_, _, (run_cons_ok hfirst _).trans ((run_cons_ok hsecond _).trans (hquote rfl)),
      hbare rfl⟩
  | secondDigit start rev r high =>
    have hsecond := step_secondDigit hmode r.isSome_digit?_zero
    exact ⟨_, _, (run_cons_ok hsecond _).trans (hquote rfl), hbare rfl⟩

end State

section

variable {text : String} {s : State} {m : Malformed}

theorem tokenize_append_of_malformed (h : tokenize text = .malformed m) (more : String) :
    tokenize (text ++ more) = .malformed m := by
  unfold tokenize at h ⊢
  rw [String.toList_append]
  exact scan_append_of_malformed h more.toList

theorem exists_complete_closing (h : State.start.run text.toList = .ok s) :
    ∃ statements, tokenize (text ++ String.ofList s.mode.closing) = .complete statements := by
  obtain ⟨t, u, hrun, hlast⟩ := s.exists_run_closing
  refine ⟨_, scan_eq_complete_iff.2 ⟨t, u, ?_, hlast, rfl⟩⟩
  rw [String.toList_append, String.toList_ofList, State.run_append, h]
  exact hrun

end

/-- **Outcomes.** A text is malformed exactly when it begins no command; what it is malformed for
stays whatever follows; and an unfinished text begins a command. -/
theorem malformed_iff_forall_append (text : String) :
    ((∃ m, tokenize text = .malformed m) ↔
      ¬∃ more statements, tokenize (text ++ more) = .complete statements) ∧
    (∀ m, tokenize text = .malformed m → ∀ more, tokenize (text ++ more) = .malformed m) ∧
    (tokenize text = .unfinished →
      ∃ more statements, tokenize (text ++ more) = .complete statements) := by
  refine ⟨⟨?_, fun hnone => ?_⟩, fun m hm => tokenize_append_of_malformed hm, fun h => ?_⟩
  · rintro ⟨m, hm⟩ ⟨more, statements, hcomplete⟩
    cases (tokenize_append_of_malformed hm more).symm.trans hcomplete
  · cases hrun : State.start.run text.toList with
    | ok s => exact absurd ⟨_, exists_complete_closing hrun⟩ hnone
    | error m => exact ⟨m, scan_eq_malformed_iff.2 hrun⟩
  · obtain ⟨s, hrun, -⟩ := scan_eq_unfinished_iff.1 h
    exact ⟨_, exists_complete_closing hrun⟩

/-- An escape that may still get its digits, and one that is none. -/
theorem malformed_iff_forall_append_escapes :
    tokenize "echo \"\\x4" = .unfinished ∧
      (∃ more statements, tokenize ("echo \"\\x4" ++ more) = .complete statements) ∧
      tokenize "echo \"\\q" = .malformed ⟨6, .unsupportedEscape 'q'⟩ ∧
      ∀ more, tokenize ("echo \"\\q" ++ more) = .malformed ⟨6, .unsupportedEscape 'q'⟩ := by
  have hunfinished : tokenize "echo \"\\x4" = .unfinished := by decide +kernel
  have hmalformed : tokenize "echo \"\\q" = .malformed ⟨6, .unsupportedEscape 'q'⟩ := by
    decide +kernel
  exact ⟨hunfinished, (malformed_iff_forall_append "echo \"\\x4").2.2 hunfinished, hmalformed,
    (malformed_iff_forall_append "echo \"\\q").2.1 _ hmalformed⟩

end Runbook.Shell
