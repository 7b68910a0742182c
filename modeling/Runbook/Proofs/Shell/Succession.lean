import Runbook.Proofs.Shell.Offsets
import Runbook.Proofs.Shell.Outcomes
import Runbook.Proofs.Shell.Slices

/-!
# One command behind another

A text behind another one is scanned as it is alone: the offsets are larger by the bytes before it,
and the statements stand behind those already finished (`State.run_behind`). A line feed leaves the
scan of a complete command where such a text begins, so a command that stands on lines of its own
is read on its own (`tokenize_append_lineFeed`).
-/

namespace Runbook.Shell

/-! ## What stands before a text -/

def Mode.behind (n : Nat) : Mode → Mode
  | .quotedEscape start rev => .quotedEscape (n + start) rev
  | .firstDigit start rev r => .firstDigit (n + start) rev r
  | .secondDigit start rev r high => .secondDigit (n + start) rev r high
  | m => m

def Malformed.behind (n : Nat) (m : Malformed) : Malformed :=
  ⟨n + m.offset, m.fault⟩

/-- The outcome when `n` bytes with these statements stand before the text. -/
def Outcome.behind (n : Nat) (before : List Statement) : Outcome → Outcome
  | .complete statements => .complete (before ++ statements)
  | .unfinished => .unfinished
  | .malformed m => .malformed (m.behind n)

namespace State

/-- The scan when `n` bytes with these statements stand before the text. -/
def behind (n : Nat) (before : List Statement) (s : State) : State :=
  { s with
    mode := s.mode.behind n
    offset := n + s.offset
    statements := s.statements ++ before.reverse }

/-- What a scan comes to when `n` bytes with these statements stand before the text. -/
def resultBehind (n : Nat) (before : List Statement) :
    Except Malformed State → Except Malformed State
  | .ok s => .ok (s.behind n before)
  | .error m => .error (m.behind n)

variable {n : Nat} {before : List Statement} (s : State) (c : Char)

@[simp] theorem mode_behind : (s.behind n before).mode = s.mode.behind n := rfl

@[simp] theorem offset_behind : (s.behind n before).offset = n + s.offset := rfl

@[simp] theorem word_behind : (s.behind n before).word = s.word := rfl

@[simp] theorem words_behind : (s.behind n before).words = s.words := rfl

@[simp] theorem afterAngle_behind : (s.behind n before).afterAngle = s.afterAngle := rfl

theorem resultBehind_ok : resultBehind n before (.ok s) = .ok (s.behind n before) := rfl

theorem resultBehind_error (m : Malformed) :
    resultBehind n before (.error m) = .error (m.behind n) := rfl

theorem resultBehind_ite {p : Prop} [Decidable p] (x y : Except Malformed State) :
    resultBehind n before (if p then x else y) =
      if p then resultBehind n before x else resultBehind n before y :=
  apply_ite (resultBehind n before) p x y

@[simp] theorem behind_enter (m : Mode) :
    (s.enter m).behind n before = (s.behind n before).enter (m.behind n) := rfl

@[simp] theorem behind_push (x : Segment) :
    (s.push x).behind n before = (s.behind n before).push x := rfl

@[simp] theorem behind_pushWord (w : Word) :
    (s.pushWord w).behind n before = (s.behind n before).pushWord w := rfl

@[simp] theorem behind_advance :
    (s.advance c).behind n before = (s.behind n before).advance c := by
  simp [behind, advance, Nat.add_assoc]

@[simp] theorem behind_endWord : s.endWord.behind n before = (s.behind n before).endWord := by
  unfold endWord
  split <;> next h => simp [behind, h]

@[simp] theorem behind_separate :
    (s.separate c).behind n before = (s.behind n before).separate c := by
  simp only [separate_eq]
  unfold endStatement
  split <;> next h => simp [behind, h, Mode.behind, Nat.add_assoc]

/-! ## The scan behind a text -/

theorem stepBare_behind :
    (s.behind n before).stepBare c = resultBehind n before (s.stepBare c) := by
  unfold stepBare
  rw [← behind_endWord, words_behind, afterAngle_behind, word_behind, offset_behind]
  simp only [resultBehind_ite, resultBehind_ok, resultBehind_error, behind_advance, behind_enter,
    behind_separate, behind_push, Mode.behind, Malformed.behind]

theorem stepQuotedEscape_behind (start : Nat) (rev : List Piece) :
    (s.behind n before).stepQuotedEscape (n + start) rev c =
      resultBehind n before (s.stepQuotedEscape start rev c) := by
  unfold stepQuotedEscape
  split
  · simp only [resultBehind_ok, behind_advance, behind_enter, Mode.behind]
  · simp only [resultBehind_ite, resultBehind_ok, resultBehind_error, behind_advance, behind_enter,
      Mode.behind, Malformed.behind]

/-- **One character** behind a text does what it does in the text alone. -/
theorem step_behind : (s.behind n before).step c = resultBehind n before (s.step c) := by
  unfold step
  rw [mode_behind]
  cases hmode : s.mode <;> dsimp only [Mode.behind]
  case bare => exact stepBare_behind s c
  case quotedEscape start rev => exact stepQuotedEscape_behind s c start rev
  case ampersand =>
    rw [← behind_endWord, ← behind_push, ← behind_pushWord, ← behind_pushWord, stepBare_behind,
      stepBare_behind, resultBehind_ite, resultBehind_ite, resultBehind_ok, behind_advance]
  case bar =>
    rw [← behind_pushWord, ← behind_pushWord, stepBare_behind, resultBehind_ite, resultBehind_ok,
      behind_advance]
  all_goals
    simp only [stepBare_behind, resultBehind_ite, resultBehind_ok, resultBehind_error,
      behind_advance, behind_enter, behind_push, offset_behind, Mode.behind, Malformed.behind]

/-- **A scan** behind a text does what it does in the text alone. -/
theorem run_behind (cs : List Char) :
    (s.behind n before).run cs = resultBehind n before (s.run cs) := by
  induction cs generalizing s with
  | nil => rfl
  | cons c cs ih =>
    rw [run, run, step_behind]
    cases s.step c with
    | ok t => exact ih t
    | error m => rfl

theorem lastWord?_behind :
    (s.behind n before).lastWord? = s.lastWord?.map (behind n before) := by
  unfold lastWord?
  rw [mode_behind]
  cases s.mode <;> simp [Mode.behind]

theorem statements_endStatement_behind : (s.behind n before).endStatement.statements =
    s.endStatement.statements ++ before.reverse := by
  unfold endStatement
  rw [words_behind]
  split <;> rfl

theorem finish_behind : (s.behind n before).finish = s.finish.behind n before := by
  cases hlast : s.lastWord? with
  | none =>
    rw [finish_of_unclosed hlast, finish_of_unclosed (by rw [lastWord?_behind, hlast]; rfl)]
    rfl
  | some u =>
    rw [finish_of_lastWord? hlast,
      finish_of_lastWord? (u := u.behind n before) (by rw [lastWord?_behind, hlast]; rfl),
      statements_endStatement_behind]
    simp [Outcome.behind]

/-- A line feed behind a complete command leaves the scan as at the start of a text. -/
theorem step_lineFeed_of_lastWord? {u : State} (hs : s.IsTidy) (h : s.lastWord? = some u) :
    s.step '\n' =
      .ok (start.behind (s.offset + 1) u.endStatement.statements.reverse) := by
  have hending : s.ending? '\n' = some u.endWord := by
    rw [ending?, if_pos (.inl rfl), h]
    rfl
  have hword : u.word = [] := (lastWord?_finished hs h).1
  rw [step_of_ending? hending, if_neg (by rintro ⟨⟨⟩, -⟩), endWord_of_word hword, separate_eq]
  have hsize : '\n'.utf8Size = 1 := rfl
  simp [start, behind, Mode.behind, hword, (lastWord?_same h).2.2, hsize]

end State

/-- A text behind a complete command and a line feed is scanned as it is alone. -/
theorem scan_append_lineFeed {cs : List Char} {statements : List Statement}
    (h : scan cs = .complete statements) (ds : List Char) :
    scan (cs ++ '\n' :: ds) = (scan ds).behind (Text.byteLength cs + 1) statements := by
  obtain ⟨s, u, hrun, hlast, rfl⟩ := scan_eq_complete_iff.1 h
  have hstep := s.step_lineFeed_of_lastWord? (State.sliced_start.run hrun).isTidy hlast
  have hwhole : State.start.run (cs ++ '\n' :: ds) =
      State.resultBehind (Text.byteLength cs + 1) u.endStatement.statements.reverse
        (State.start.run ds) := by
    rw [State.run_append, hrun, ← State.run_behind, ← State.offset_of_run hrun]
    exact State.run_cons_ok hstep ds
  unfold scan
  rw [hwhole]
  cases State.start.run ds with
  | ok t => exact State.finish_behind t
  | error m => rfl

/-- **One command behind another.** Behind a complete command and a line feed a text is what it is
alone: its statements come behind those of the command, and the offset of its fault is larger by
the bytes of the command and the line feed. -/
theorem tokenize_append_lineFeed {command : String} {statements : List Statement}
    (h : tokenize command = .complete statements) (text : String) :
    (∀ more, tokenize text = .complete more →
      tokenize (command ++ "\n" ++ text) = .complete (statements ++ more)) ∧
    (tokenize text = .unfinished → tokenize (command ++ "\n" ++ text) = .unfinished) ∧
    (∀ m, tokenize text = .malformed m → tokenize (command ++ "\n" ++ text) =
      .malformed ⟨command.utf8ByteSize + 1 + m.offset, m.fault⟩) := by
  have hboth : tokenize (command ++ "\n" ++ text) =
      (tokenize text).behind (command.utf8ByteSize + 1) statements := by
    unfold tokenize at h ⊢
    rw [String.toList_append, String.toList_append, List.append_assoc,
      ← Text.byteLength_eq_utf8ByteSize]
    exact scan_append_lineFeed h text.toList
  refine ⟨fun more hmore => ?_, fun hunfinished => ?_, fun m hm => ?_⟩
  · rw [hboth, hmore]
    rfl
  · rw [hboth, hunfinished]
    rfl
  · rw [hboth, hm]
    rfl

/-- A command that ends in a comment, and behind it a text with a fault. -/
theorem tokenize_append_lineFeed_comment :
    ∃ statements, tokenize "echo é & # note \\" = .complete statements ∧
      tokenize ("echo é & # note \\" ++ "\n" ++ "ls; ;") = .malformed ⟨23, .emptyStatement⟩ := by
  obtain ⟨statements, hcommand⟩ :
      ∃ statements, tokenize "echo é & # note \\" = .complete statements := ⟨_, rfl⟩
  have hfault : tokenize "ls; ;" = .malformed ⟨4, .emptyStatement⟩ := by decide +kernel
  exact ⟨statements, hcommand, (tokenize_append_lineFeed hcommand "ls; ;").2.2 _ hfault⟩

end Runbook.Shell
