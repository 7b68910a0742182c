import Runbook.Proofs.Shell.Continuation
import Runbook.Proofs.Shell.Offsets

/-!
# Faults

A text is malformed exactly when the scan reads a first part of it and what follows violates one of
three rules there (`malformed_iff_violates`). The fault stands at the first character of the
violation: a `;` with no word before it, or the backslash of an escape in double quotes. The caret
of its marker stands as far from the left as this character from the start of its row
(`exists_fault_of_tokenize`).
-/

namespace Runbook.Shell

open Text (byteLength)

/-! ## Violations -/

namespace State

variable {s t : State} {c : Char} {cs rest : List Char} {m : Malformed} {f : Fault}

/-- What follows where the scan stands breaks a rule of commands. -/
inductive Violates (s : State) : Fault → List Char → Prop
  /-- A `;` with no word of its statement before it. -/
  | emptyStatement (hmode : s.mode = .bare) (hword : s.word = []) (hwords : s.words = [])
    (behind : List Char) : Violates s .emptyStatement (';' :: behind)
  /-- In double quotes, a backslash before a character that no escape has. -/
  | unsupportedEscape {rev : List Piece} (hmode : s.mode = .double rev) {c : Char}
    (hcontrol : ∀ k : Control, c ≠ k.letter) (hradix : ∀ r : Radix, c ≠ r.letter)
    (behind : List Char) : Violates s (.unsupportedEscape c) ('\\' :: c :: behind)
  /-- In double quotes, a numeric escape with fewer than two digits before another character. -/
  | missingDigits {rev : List Piece} (hmode : s.mode = .double rev) (r : Radix)
    (digits : List Char) (hlength : digits.length < 2)
    (hdigits : ∀ d ∈ digits, (r.digit? d).isSome = true) {c : Char}
    (hc : ¬(r.digit? c).isSome = true) (behind : List Char) :
    Violates s (.missingDigits r) ('\\' :: r.letter :: (digits ++ c :: behind))

theorem Violates.run (h : s.Violates f rest) : s.run rest = .error ⟨s.offset, f⟩ := by
  cases h with
  | emptyStatement hmode hword hwords behind =>
    have hstep : s.step ';' = .error ⟨s.offset, .emptyStatement⟩ := by
      rw [step_of_bare hmode, stepBare_separator (.inr rfl), endWord_of_word hword, hwords]
      rfl
    exact run_cons_error hstep behind
  | @unsupportedEscape _ hmode c hcontrol hradix behind =>
    rw [run_cons_ok (step_backslash_double hmode)]
    refine run_cons_error ?_ behind
    show stepQuotedEscape _ s.offset _ c = _
    have hnone : Control.ofLetter? c = none := by
      rw [Option.eq_none_iff_forall_ne_some]
      exact fun k hk => hcontrol k (Control.eq_letter_of_ofLetter? hk)
    unfold stepQuotedEscape
    rw [hnone]
    dsimp only
    rw [if_neg (hradix .hexadecimal), if_neg (hradix .octal)]
  | missingDigits hmode r digits hlength hdigits hc behind =>
    exact run_of_not_digit hmode hlength hdigits hc behind

/-- A refused character ends a violation that began where the fault stands. -/
theorem Refuses.exists_violates (h : s.Refuses c m) (hrun : start.run cs = .ok s)
    (behind : List Char) :
    ∃ before rest t, cs ++ c :: behind = before ++ rest ∧ start.run before = .ok t ∧
      m.offset = t.offset ∧ t.Violates m.fault rest := by
  cases h with
  | emptyStatement hmode hword hwords hc =>
    subst hc
    exact ⟨cs, _, s, rfl, hrun, rfl, .emptyStatement hmode hword hwords behind⟩
  | unsupportedEscape hmode hcontrol hradix =>
    obtain ⟨before, t, rfl, ht, hdouble, rfl⟩ := exists_of_quotedEscape hrun hmode
    exact ⟨before, _, t, by rw [List.append_assoc]; rfl, ht, rfl,
      .unsupportedEscape hdouble hcontrol hradix behind⟩
  | @firstDigit _ _ r hmode hc =>
    obtain ⟨before, t, rfl, ht, hdouble, rfl⟩ := exists_of_firstDigit hrun hmode
    exact ⟨before, _, t, by rw [List.append_assoc]; rfl, ht, rfl,
      .missingDigits hdouble r [] (by decide) nofun hc behind⟩
  | @secondDigit _ _ r high hmode hc =>
    obtain ⟨before, t, rfl, hdigit, ht, hdouble, rfl⟩ := exists_of_secondDigit hrun hmode
    exact ⟨before, _, t, by rw [List.append_assoc]; rfl, ht, rfl,
      .missingDigits hdouble r [high] Nat.one_lt_two (by simpa using hdigit) hc behind⟩

/-- A violation begins with a `;`, or with a backslash in double quotes. -/
theorem Violates.exists_head (h : s.Violates f rest) : ∃ c behind, rest = c :: behind ∧
    (f = .emptyStatement ∧ c = ';' ∨
      f ≠ .emptyStatement ∧ c = '\\' ∧ ∃ rev, s.mode = .double rev) := by
  cases h with
  | emptyStatement _ _ _ behind => exact ⟨_, behind, rfl, .inl ⟨rfl, rfl⟩⟩
  | unsupportedEscape hmode _ _ behind => exact ⟨_, _, rfl, .inr ⟨nofun, rfl, _, hmode⟩⟩
  | missingDigits hmode r _ _ _ _ behind => exact ⟨_, _, rfl, .inr ⟨nofun, rfl, _, hmode⟩⟩

end State

section

variable {text : String} {m : Malformed} {before rest cs ds : List Char}

/-- **Violations.** A text is malformed exactly when the scan reads a first part of it and the rest
begins with a violation, which is where the fault stands. -/
theorem malformed_iff_violates : tokenize text = .malformed m ↔
    ∃ before rest s, text.toList = before ++ rest ∧ State.start.run before = .ok s ∧
      m.offset = byteLength before ∧ s.Violates m.fault rest := by
  unfold tokenize
  rw [scan_eq_malformed_iff]
  constructor
  · intro h
    obtain ⟨read, c, behind, t, htext, hread, hstep⟩ := State.exists_of_run_error h
    obtain ⟨before, rest, s, hrest, hrun, hoffset, hviolates⟩ :=
      (State.refuses_of_step hstep).exists_violates hread behind
    exact ⟨before, rest, s, htext.trans hrest, hrun, hoffset.trans (State.offset_of_run hrun),
      hviolates⟩
  · rintro ⟨before, rest, s, htext, hrun, hoffset, hviolates⟩
    rw [htext, State.run_append, hrun]
    show s.run rest = _
    rw [hviolates.run, State.offset_of_run hrun, ← hoffset]

/-! ## Markers -/

/-- The number of characters behind the last line feed. -/
def column (cs : List Char) : Nat :=
  (cs.reverse.takeWhile (· ≠ '\n')).length

theorem column_append (cs : List Char) (h : '\n' ∉ ds) :
    column (cs ++ ds) = column cs + ds.length := by
  have hall : ∀ c ∈ ds.reverse, decide (c ≠ '\n') = true := by
    intro c hc
    rw [decide_eq_true_eq]
    rintro rfl
    exact h (List.mem_reverse.1 hc)
  unfold column
  rw [List.reverse_append, List.takeWhile_append_of_pos hall, List.length_append,
    List.length_reverse, Nat.add_comm]

theorem column_append_of_mem (cs : List Char) (h : '\n' ∈ ds) : column (cs ++ ds) = column ds := by
  obtain ⟨row, above, hrows, hrow⟩ := List.eq_append_cons_of_mem (List.mem_reverse.2 h)
  unfold column
  rw [List.reverse_append, hrows, List.append_assoc, List.cons_append,
    Text.takeWhile_ne_append hrow, Text.takeWhile_ne_append hrow]

theorem column_of_not_mem (h : '\n' ∉ cs) : column cs = cs.length := by
  have hcolumn := column_append [] h
  rwa [List.nil_append, show column [] = 0 from rfl, Nat.zero_add] at hcolumn

/-- The characters behind the last line feed make up the last row. -/
theorem exists_row (cs : List Char) : ∃ above row, cs = above ++ row ∧
    (above = [] ∨ above.getLast? = some '\n') ∧ '\n' ∉ row ∧ column cs = row.length := by
  refine ⟨(cs.reverse.dropWhile (· ≠ '\n')).reverse, (cs.reverse.takeWhile (· ≠ '\n')).reverse,
    ?_, ?_, ?_, ?_⟩
  · rw [← List.reverse_append, List.takeWhile_append_dropWhile, List.reverse_reverse]
  · rw [List.getLast?_reverse, List.reverse_eq_nil_iff]
    cases hdrop : cs.reverse.dropWhile (· ≠ '\n') with
    | nil => exact .inl rfl
    | cons c ds =>
      have hhead := List.head?_dropWhile_not (fun c => decide (c ≠ '\n')) cs.reverse
      rw [hdrop] at hhead
      exact .inr (by simpa using hhead)
  · rw [List.mem_reverse]
    intro hmem
    simpa using List.mem_takeWhile_imp hmem
  · rw [column, List.length_reverse]

theorem marker_eq (htext : text.toList = before ++ rest) (hoffset : m.offset = byteLength before) :
    m.marker text =
      String.ofList (List.replicate (column before) ' ') ++ "^ " ++ m.fault.message := by
  unfold Malformed.marker marker
  rw [htext, hoffset, firstBytes_append]
  rfl

end

/-- **Faults.** A fault of a text stands between two characters of it, before a `;` or before a
backslash in double quotes, where a violation begins. The text before it has no fault. Its marker
has as many spaces as there are characters before the fault in its row, then a caret, a space and
the message. -/
theorem exists_fault_of_tokenize {text : String} {m : Malformed}
    (h : tokenize text = .malformed m) :
    ∃ before c behind s, text.toList = before ++ c :: behind ∧ m.offset = byteLength before ∧
      m.offset < text.utf8ByteSize ∧
      State.start.run before = .ok s ∧ s.Violates m.fault (c :: behind) ∧
      (m.fault = .emptyStatement ∧ c = ';' ∨
        m.fault ≠ .emptyStatement ∧ c = '\\' ∧ ∃ rev, s.mode = .double rev) ∧
      (∀ m', tokenize (String.ofList before) ≠ .malformed m') ∧
      ∃ above row, before = above ++ row ∧ (above = [] ∨ above.getLast? = some '\n') ∧
        '\n' ∉ row ∧ m.marker text =
          String.ofList (List.replicate row.length ' ') ++ "^ " ++ m.fault.message := by
  obtain ⟨before, rest, s, htext, hrun, hoffset, hviolates⟩ := malformed_iff_violates.1 h
  obtain ⟨c, behind, rfl, hhead⟩ := hviolates.exists_head
  obtain ⟨above, row, hrows, habove, hrow, hcolumn⟩ := exists_row before
  have hbefore : ∀ m', tokenize (String.ofList before) ≠ .malformed m' := by
    intro m' hm'
    unfold tokenize at hm'
    rw [String.toList_ofList, scan_eq_malformed_iff, hrun] at hm'
    cases hm'
  refine ⟨before, c, behind, s, htext, hoffset, ?_, hrun, hviolates, hhead, hbefore, above, row,
    hrows, habove, hrow, ?_⟩
  · have hsize := c.utf8Size_pos
    rw [← Text.byteLength_eq_utf8ByteSize, htext, hoffset, Text.byteLength_append,
      Text.byteLength_cons]
    omega
  · rw [marker_eq htext hoffset, hcolumn]

/-- A numeric escape without its second digit, behind a line feed and letters of several bytes. -/
def shortEscape : String :=
  "größe ß; echo \"ü\nñ \\x4ß\" ; done"

theorem exists_fault_of_tokenize_shortEscape :
    tokenize shortEscape = .malformed ⟨24, .missingDigits .hexadecimal⟩ ∧
      ∃ before c behind s, shortEscape.toList = before ++ c :: behind ∧ 24 = byteLength before ∧
        24 < shortEscape.utf8ByteSize ∧
        State.start.run before = .ok s ∧
        s.Violates (.missingDigits .hexadecimal) (c :: behind) ∧
        (Fault.missingDigits .hexadecimal = .emptyStatement ∧ c = ';' ∨
          Fault.missingDigits .hexadecimal ≠ .emptyStatement ∧ c = '\\' ∧
            ∃ rev, s.mode = .double rev) ∧
        (∀ m', tokenize (String.ofList before) ≠ .malformed m') ∧
        ∃ above row, before = above ++ row ∧ (above = [] ∨ above.getLast? = some '\n') ∧
          '\n' ∉ row ∧
          (Malformed.mk 24 (.missingDigits .hexadecimal)).marker shortEscape =
            String.ofList (List.replicate row.length ' ') ++ "^ " ++
              (Fault.missingDigits .hexadecimal).message := by
  have hmalformed : tokenize shortEscape = .malformed ⟨24, .missingDigits .hexadecimal⟩ := by
    decide +kernel
  exact ⟨hmalformed, exists_fault_of_tokenize hmalformed⟩

end Runbook.Shell
