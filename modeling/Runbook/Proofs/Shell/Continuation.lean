import Runbook.Shell.Joining
import Runbook.Proofs.Text.Trim
import Runbook.Proofs.Shell.Outcomes

/-!
# Lines that complete a command

An unfinished command can be completed by one more line, the one that closes its quoting
(`exists_joinLine_complete`), unless the text ends within a numeric escape (`CutsNumber`): the line
feed that joins the next line takes the place of a digit, and what follows is malformed whatever the
lines are (`tokenize_joined_of_cutsNumber`).
-/

namespace Runbook.Shell

/-- The text of a command after its first line and further lines. -/
def joined (first : String) (lines : List String) : String :=
  lines.foldl joinLine (firstLine first)

theorem joined_append (first : String) (lines more : List String) :
    joined first (lines ++ more) = more.foldl joinLine (joined first lines) :=
  List.foldl_append

/-- What the next line is joined to: the text without the backslash at its end, or with a line feed
behind it. -/
def joint (text : String) : String :=
  if text.toList.getLast? = some '\\' then String.ofList text.toList.dropLast else text ++ "\n"

theorem joinLine_eq_joint (text line : String) :
    joinLine text line = joint text ++ Text.trimmed line := by
  unfold joinLine joint
  dsimp only
  split <;> rfl

/-- The text ends in double quotes within a numeric escape that has fewer than two digits; the
backslash is at `start`. -/
def CutsNumber (cs : List Char) (r : Radix) (start : Nat) : Prop :=
  ∃ before digits s rev, cs = before ++ '\\' :: r.letter :: digits ∧
    digits.length < 2 ∧ (∀ d ∈ digits, (r.digit? d).isSome = true) ∧
    State.start.run before = .ok s ∧ s.mode = .double rev ∧ s.offset = start

/-! ## Behind the backslash of an escape -/

namespace State

variable {s t u : State} {c : Char} {cs : List Char} {k : Nat} {rev : List Piece} {r : Radix}

theorem escapeStart?_stepBare (h : s.stepBare c = .ok t) : t.mode.escapeStart? = none := by
  unfold stepBare at h
  split_ifs at h <;> obtain rfl := Except.ok.inj h <;> rfl

/-- What led into an escape in double quotes, or further into it. -/
inductive Escapes (s : State) (c : Char) : Mode → Prop
  | opens {rev : List Piece} (hmode : s.mode = .double rev) (hc : c = '\\') :
    Escapes s c (.quotedEscape s.offset rev)
  | numbers {start : Nat} {rev : List Piece} {r : Radix}
    (hmode : s.mode = .quotedEscape start rev) (hc : c = r.letter) :
    Escapes s c (.firstDigit start rev r)
  | takes {start : Nat} {rev : List Piece} {r : Radix} (hmode : s.mode = .firstDigit start rev r)
    (hc : (r.digit? c).isSome = true) : Escapes s c (.secondDigit start rev r c)

/-- Where a statement may end no escape begins. -/
theorem escapeStart?_of_lastWord? (h : s.step c = .ok t) (hlast : s.lastWord? = some u) :
    t.mode.escapeStart? = none := by
  unfold step at h
  unfold lastWord? at hlast
  cases hmode : s.mode <;> rw [hmode] at h hlast <;> dsimp only at h hlast
  case bare => exact escapeStart?_stepBare h
  case comment =>
    split_ifs at h
    · exact escapeStart?_stepBare h
    · obtain rfl := Except.ok.inj h
      exact congrArg Mode.escapeStart? hmode
  case ampersand =>
    split_ifs at h
    · exact escapeStart?_stepBare h
    · obtain rfl := Except.ok.inj h
      rfl
    · exact escapeStart?_stepBare h
  case bar =>
    split_ifs at h
    · obtain rfl := Except.ok.inj h
      rfl
    · exact escapeStart?_stepBare h
  all_goals cases hlast

theorem escapes_of_step (h : s.step c = .ok t) (hmode : t.mode.escapeStart? ≠ none) :
    s.Escapes c t.mode := by
  cases hlast : s.lastWord? with
  | some u => exact absurd (escapeStart?_of_lastWord? h hlast) hmode
  | none =>
    unfold step at h
    unfold lastWord? at hlast
    cases hm : s.mode <;> rw [hm] at h hlast <;> dsimp only at h hlast
    case escape =>
      obtain rfl := Except.ok.inj h
      exact absurd rfl hmode
    case single rev => split_ifs at h <;> obtain rfl := Except.ok.inj h <;> exact absurd rfl hmode
    case double rev =>
      split_ifs at h with _ hbackslash <;> obtain rfl := Except.ok.inj h
      · exact absurd rfl hmode
      · exact .opens hm hbackslash
      · exact absurd rfl hmode
    case quotedEscape start rev =>
      unfold stepQuotedEscape at h
      split at h
      · obtain rfl := Except.ok.inj h
        exact absurd rfl hmode
      · split_ifs at h with hx hzero <;> obtain rfl := Except.ok.inj h
        · exact .numbers hm hx
        · exact .numbers hm hzero
    case firstDigit start rev r =>
      split_ifs at h with hdigit
      obtain rfl := Except.ok.inj h
      exact .takes hm hdigit
    case secondDigit start rev r high =>
      split_ifs at h
      obtain rfl := Except.ok.inj h
      exact absurd rfl hmode
    all_goals cases hlast

theorem exists_escapes_of_run (h : start.run cs = .ok t) (hmode : t.mode.escapeStart? ≠ none) :
    ∃ before c s, cs = before ++ [c] ∧ start.run before = .ok s ∧ s.Escapes c t.mode := by
  rcases List.eq_nil_or_concat cs with rfl | ⟨before, c, rfl⟩
  · obtain rfl := Except.ok.inj h
    exact absurd rfl hmode
  · rw [List.concat_eq_append] at h ⊢
    obtain ⟨s, hrun, hstep⟩ := exists_of_run_concat h
    exact ⟨before, c, s, rfl, hrun, escapes_of_step hstep hmode⟩

theorem exists_of_quotedEscape (h : start.run cs = .ok t) (hmode : t.mode = .quotedEscape k rev) :
    ∃ before s, cs = before ++ ['\\'] ∧ start.run before = .ok s ∧ s.mode = .double rev ∧
      s.offset = k := by
  obtain ⟨before, c, s, rfl, hrun, hescapes⟩ :=
    exists_escapes_of_run h (by rw [hmode]; exact Option.some_ne_none k)
  rw [hmode] at hescapes
  cases hescapes with
  | opens hdouble hc => exact ⟨before, s, by rw [hc], hrun, hdouble, rfl⟩

/-- Before the first digit of a numeric escape the text ends in the letter that it begins with. -/
theorem exists_of_firstDigit (h : start.run cs = .ok t) (hmode : t.mode = .firstDigit k rev r) :
    ∃ before s, cs = before ++ ['\\', r.letter] ∧ start.run before = .ok s ∧
      s.mode = .double rev ∧ s.offset = k := by
  obtain ⟨init, c, s, rfl, hrun, hescapes⟩ :=
    exists_escapes_of_run h (by rw [hmode]; exact Option.some_ne_none k)
  rw [hmode] at hescapes
  cases hescapes with
  | numbers hescape hc =>
    obtain ⟨before, v, rfl, hbefore, hdouble, hoffset⟩ := exists_of_quotedEscape hrun hescape
    exact ⟨before, v, by simp [hc], hbefore, hdouble, hoffset⟩

theorem exists_of_secondDigit {high : Char} (h : start.run cs = .ok t)
    (hmode : t.mode = .secondDigit k rev r high) :
    ∃ before s, cs = before ++ ['\\', r.letter, high] ∧ (r.digit? high).isSome = true ∧
      start.run before = .ok s ∧ s.mode = .double rev ∧ s.offset = k := by
  obtain ⟨init, c, v, rfl, hinit, hescapes⟩ :=
    exists_escapes_of_run h (by rw [hmode]; exact Option.some_ne_none k)
  rw [hmode] at hescapes
  cases hescapes with
  | takes hfirst hdigit =>
    obtain ⟨before, s, rfl, hrun, hdouble, hoffset⟩ := exists_of_firstDigit hinit hfirst
    exact ⟨before, s, by simp, hdigit, hrun, hdouble, hoffset⟩

/-- In an escape in double quotes the text ends in a backslash or within a numeric escape. -/
theorem getLast?_or_cutsNumber (h : start.run cs = .ok t) (hmode : t.mode.escapeStart? = some k) :
    cs.getLast? = some '\\' ∨ ∃ r, CutsNumber cs r k := by
  cases hm : t.mode <;> rw [hm] at hmode <;> cases hmode
  case quotedEscape rev =>
    obtain ⟨before, s, rfl, -⟩ := exists_of_quotedEscape h hm
    exact .inl List.getLast?_concat
  case firstDigit rev r =>
    obtain ⟨before, s, hcs, hrun, hdouble, hoffset⟩ := exists_of_firstDigit h hm
    exact .inr ⟨r, before, [], s, rev, hcs, by decide, nofun, hrun, hdouble, hoffset⟩
  case secondDigit rev r high =>
    obtain ⟨before, s, hcs, hdigit, hrun, hdouble, hoffset⟩ := exists_of_secondDigit h hm
    exact .inr ⟨r, before, [high], s, rev, hcs, Nat.one_lt_two, by simpa using hdigit, hrun,
      hdouble, hoffset⟩

theorem step_of_not_digit (hc : ¬(r.digit? c).isSome = true)
    (hmode : s.mode = .firstDigit k rev r ∨ ∃ high, s.mode = .secondDigit k rev r high) :
    s.step c = .error ⟨k, .missingDigits r⟩ := by
  rcases hmode with hmode | ⟨high, hmode⟩ <;> rw [step, hmode] <;> exact if_neg hc

/-- A numeric escape in double quotes with fewer than two digits is refused at the character that
stands in place of a digit. -/
theorem run_of_not_digit {digits : List Char} (hmode : s.mode = .double rev)
    (hlength : digits.length < 2) (hdigits : ∀ d ∈ digits, (r.digit? d).isSome = true)
    (hc : ¬(r.digit? c).isSome = true) (ds : List Char) :
    s.run ('\\' :: r.letter :: (digits ++ c :: ds)) = .error ⟨s.offset, .missingDigits r⟩ := by
  rw [run_cons_ok (step_backslash_double hmode), run_cons_ok (step_letter rfl r)]
  cases digits with
  | nil => exact run_cons_error (step_of_not_digit hc (.inl rfl)) ds
  | cons d digits =>
    obtain ⟨hd, -⟩ := List.forall_mem_cons.1 hdigits
    obtain rfl : digits = [] :=
      List.eq_nil_of_length_eq_zero (Nat.lt_one_iff.1 (Nat.lt_of_succ_lt_succ hlength))
    show State.run _ (d :: c :: ds) = _
    rw [run_cons_ok (step_firstDigit rfl hd)]
    exact run_cons_error (step_of_not_digit hc (.inr ⟨d, rfl⟩)) ds

end State

/-! ## Texts that no line completes -/

theorem Radix.not_digit_backslash (r : Radix) : ¬(r.digit? '\\').isSome = true := by
  cases r <;> decide

section

variable {cs : List Char} {r : Radix} {k : Nat} {text : String}

/-- A line feed takes the place of a digit. -/
theorem scan_lineFeed_of_cutsNumber (h : CutsNumber cs r k) (ds : List Char) :
    scan (cs ++ '\n' :: ds) = .malformed ⟨k, .missingDigits r⟩ := by
  obtain ⟨before, digits, s, rev, rfl, hlength, hdigits, hrun, hdouble, rfl⟩ := h
  rw [scan_eq_malformed_iff, List.append_assoc, State.run_append, hrun]
  exact State.run_of_not_digit hdouble hlength hdigits r.not_digit_lineFeed ds

theorem CutsNumber.getLast?_ne (h : CutsNumber cs r k) : cs.getLast? ≠ some '\\' := by
  obtain ⟨before, digits, s, rev, rfl, hlength, hdigits, -⟩ := h
  cases digits with
  | nil => cases r <;> simp [Radix.letter]
  | cons d digits =>
    obtain ⟨hd, -⟩ := List.forall_mem_cons.1 hdigits
    obtain rfl : digits = [] :=
      List.eq_nil_of_length_eq_zero (Nat.lt_one_iff.1 (Nat.lt_of_succ_lt_succ hlength))
    intro hlast
    obtain rfl : d = '\\' := by simpa using hlast
    exact r.not_digit_backslash hd

/-- A text that does not end in a backslash stays where it is when further lines are joined. -/
theorem prefix_joinLine {cs : List Char} (h : cs <+: text.toList)
    (hlast : cs.getLast? ≠ some '\\') (line : String) : cs <+: (joinLine text line).toList := by
  have hjoint : cs <+: (joint text).toList := by
    unfold joint
    split
    · next hback =>
      obtain ⟨init, hinit⟩ := List.getLast?_eq_some_iff.1 hback
      rw [hinit] at h
      rw [String.toList_ofList, hinit, List.dropLast_concat]
      exact (List.prefix_concat_iff.1 h).resolve_left fun heq =>
        hlast (heq ▸ List.getLast?_concat)
    · rw [String.toList_append]
      exact h.trans (List.prefix_append text.toList _)
  rw [joinLine_eq_joint, String.toList_append]
  exact hjoint.trans (List.prefix_append _ _)

theorem prefix_foldl_joinLine (h : cs <+: text.toList) (hlast : cs.getLast? ≠ some '\\')
    (lines : List String) : cs <+: (lines.foldl joinLine text).toList := by
  induction lines generalizing text with
  | nil => exact h
  | cons line lines ih => exact ih (prefix_joinLine h hlast line)

/-- **No completion.** Behind a text that ends within a numeric escape every line makes it
malformed, and no further line changes this. -/
theorem tokenize_joined_of_cutsNumber {first : String} {lines : List String}
    (h : CutsNumber (joined first lines).toList r k) (line : String) (more : List String) :
    tokenize (joined first (lines ++ line :: more)) = .malformed ⟨k, .missingDigits r⟩ := by
  have hlineFeed : (joined first lines).toList ++ ['\n'] <+:
      (joinLine (joined first lines) line).toList := by
    rw [joinLine_eq_joint, joint, if_neg h.getLast?_ne, String.toList_append, String.toList_append]
    exact List.prefix_append _ _
  obtain ⟨rest, hrest⟩ := prefix_foldl_joinLine hlineFeed (by simp) more
  rw [joined_append, List.foldl_cons]
  unfold tokenize
  rw [← hrest, List.append_assoc]
  exact scan_lineFeed_of_cutsNumber h rest

theorem not_complete_of_cutsNumber {first : String} {lines : List String}
    (h : tokenize (joined first lines) = .unfinished)
    (hcut : CutsNumber (joined first lines).toList r k) (more : List String)
    (statements : List Statement) :
    tokenize (joined first (lines ++ more)) ≠ .complete statements := by
  intro hcomplete
  cases more with
  | nil =>
    rw [List.append_nil, h] at hcomplete
    cases hcomplete
  | cons line more => cases (tokenize_joined_of_cutsNumber hcut line more).symm.trans hcomplete

end

/-! ## The line that completes a command -/

section

variable {text : String} {s t : State}

theorem Mode.forall_mem_closing (m : Mode) :
    ∀ c ∈ m.closing, Text.isBlank c = false ∧ c ≠ '\n' := by
  cases m <;> simp [Mode.closing] <;> decide

theorem trimmed_closing (m : Mode) :
    Text.trimmed (String.ofList m.closing) = String.ofList m.closing := by
  have hblank : ∀ c ∈ m.closing, Text.isBlank c = false := fun c hc => (m.forall_mem_closing c hc).1
  unfold Text.trimmed
  rw [String.toList_ofList, Text.trim_eq_self]
  · exact fun c hc => hblank c (List.mem_of_head? hc)
  · exact fun c hc => hblank c (List.mem_of_getLast? hc)

theorem lineFeed_not_mem_closing (m : Mode) : '\n' ∉ (String.ofList m.closing).toList := by
  rw [String.toList_ofList]
  exact fun hmem => (m.forall_mem_closing _ hmem).2 rfl

/-- A line feed is refused in an escape in double quotes only. -/
theorem exists_step_lineFeed (hstart : s.mode.escapeStart? = none) :
    ∃ t, s.step '\n' = .ok t := by
  cases hstep : s.step '\n' with
  | ok t => exact ⟨t, rfl⟩
  | error m =>
    rcases State.fault_of_step hstep with ⟨hsemicolon, -⟩ | hescape
    · cases hsemicolon
    · cases hstart.symm.trans hescape

/-- The line that closes the quoting of what it is joined to. -/
theorem exists_joinLine_of_run (h : State.start.run (joint text).toList = .ok t) :
    ∃ line, '\n' ∉ line.toList ∧
      ∃ statements, tokenize (joinLine text line) = .complete statements := by
  refine ⟨String.ofList t.mode.closing, lineFeed_not_mem_closing t.mode, ?_⟩
  rw [joinLine_eq_joint, trimmed_closing]
  exact exists_complete_closing h

/-- **Completion.** An unfinished text that does not end within a numeric escape is completed by one
line. -/
theorem exists_joinLine_complete (h : tokenize text = .unfinished)
    (hcut : ∀ r k, ¬CutsNumber text.toList r k) :
    ∃ line, '\n' ∉ line.toList ∧
      ∃ statements, tokenize (joinLine text line) = .complete statements := by
  obtain ⟨s, hrun, -⟩ := scan_eq_unfinished_iff.1 h
  by_cases hback : text.toList.getLast? = some '\\'
  · -- The backslash goes, so the scan goes on from where it stood before it.
    obtain ⟨before, hbefore⟩ := List.getLast?_eq_some_iff.1 hback
    rw [hbefore] at hrun
    obtain ⟨t, ht, -⟩ := State.exists_of_run_concat hrun
    refine exists_joinLine_of_run (t := t) ?_
    rw [joint, if_pos hback, hbefore, List.dropLast_concat, String.toList_ofList, ht]
  · -- A line feed follows, and a text without a backslash at its end stands in no other escape.
    have hstart : s.mode.escapeStart? = none := by
      rw [Option.eq_none_iff_forall_ne_some]
      intro k hk
      rcases State.getLast?_or_cutsNumber hrun hk with hbackslash | ⟨r, hnumber⟩
      · exact hback hbackslash
      · exact hcut r k hnumber
    obtain ⟨t, hstep⟩ := exists_step_lineFeed hstart
    refine exists_joinLine_of_run (t := t) ?_
    rw [joint, if_neg hback, String.toList_append, State.run_append, hrun]
    exact State.run_cons_ok hstep []

end

/-- **Continuation.** An unfinished command is completed by further lines exactly when its text does
not end within a numeric escape in double quotes. Where it does, every further line makes it
malformed for the digits that are missing. -/
theorem exists_lines_complete_iff {first : String} {lines : List String}
    (h : tokenize (joined first lines) = .unfinished) :
    ((∃ more : List String, (∀ line ∈ more, '\n' ∉ line.toList) ∧
        ∃ statements, tokenize (joined first (lines ++ more)) = .complete statements) ↔
      ¬∃ r start, CutsNumber (joined first lines).toList r start) ∧
    ∀ r start, CutsNumber (joined first lines).toList r start → ∀ line more,
      tokenize (joined first (lines ++ line :: more)) = .malformed ⟨start, .missingDigits r⟩ := by
  refine ⟨⟨?_, fun hcut => ?_⟩, fun r start hcut => tokenize_joined_of_cutsNumber hcut⟩
  · rintro ⟨more, -, statements, hcomplete⟩ ⟨r, start, hcut⟩
    exact not_complete_of_cutsNumber h hcut more statements hcomplete
  · obtain ⟨line, hline, hcomplete⟩ :=
      exists_joinLine_complete h fun r start hnumber => hcut ⟨r, start, hnumber⟩
    refine ⟨[line], by simpa using hline, ?_⟩
    rw [joined_append]
    exact hcomplete

/-- A text that ends in single quotes and a backslash, and one that ends before the second digit of
an escape. -/
theorem exists_lines_complete_iff_quotes :
    (tokenize (joined "echo 'a" ["b\\"]) = .unfinished ∧
      ∃ more : List String, (∀ line ∈ more, '\n' ∉ line.toList) ∧
        ∃ statements, tokenize (joined "echo 'a" (["b\\"] ++ more)) = .complete statements) ∧
    tokenize (joined "echo \"\\x4" []) = .unfinished ∧
      ∀ line more, tokenize (joined "echo \"\\x4" ([] ++ line :: more)) =
        .malformed ⟨6, .missingDigits .hexadecimal⟩ := by
  have hsingle : tokenize (joined "echo 'a" ["b\\"]) = .unfinished := by decide +kernel
  have hdigit : tokenize (joined "echo \"\\x4" []) = .unfinished := by decide +kernel
  have hcut : CutsNumber (joined "echo \"\\x4" []).toList .hexadecimal 6 :=
    ⟨"echo \"".toList, ['4'], _, [], rfl, by decide, List.forall_mem_cons.2 ⟨by decide, nofun⟩,
      rfl, rfl, rfl⟩
  refine ⟨⟨hsingle, (exists_lines_complete_iff hsingle).1.2 ?_⟩, hdigit,
    (exists_lines_complete_iff hdigit).2 _ _ hcut⟩
  rintro ⟨r, start, hnumber⟩
  exact hnumber.getLast?_ne (by decide +kernel)

/-- A line that ends before the digits of an escape is unfinished, and no lines complete it. -/
theorem unfinished_and_never_complete :
    tokenize (joined "echo \"\\x" []) = .unfinished ∧
      ¬∃ more : List String, (∀ line ∈ more, '\n' ∉ line.toList) ∧
        ∃ statements, tokenize (joined "echo \"\\x" ([] ++ more)) = .complete statements := by
  have hunfinished : tokenize (joined "echo \"\\x" []) = .unfinished := by decide +kernel
  have hcut : CutsNumber (joined "echo \"\\x" []).toList .hexadecimal 6 :=
    ⟨"echo \"".toList, [], _, [], rfl, by decide, nofun, rfl, rfl, rfl⟩
  refine ⟨hunfinished, ?_⟩
  rintro ⟨more, -, statements, hcomplete⟩
  exact not_complete_of_cutsNumber hunfinished hcut more statements hcomplete

end Runbook.Shell
