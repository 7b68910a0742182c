import Runbook.Shell.Quote
import Runbook.Shell.Scan

/-!
# Reading segments back

A segment is well formed when its source can be told apart from what follows it: a span in single
quotes holds no quote, one in double quotes only pieces that are escapes or need none. The scan
reads the source of a well-formed segment as that segment (`run_segment`, `run_segments`).
-/

namespace Runbook.Shell

/-! ## Well-formed segments -/

/-- A piece whose source is read as that piece inside double quotes. -/
def Piece.WellFormed : Piece → Prop
  | .char c => c ≠ '\x22' ∧ c ≠ '\\'
  | .control _ => True
  | .numeric r high low => (r.digit? high).isSome ∧ (r.digit? low).isSome

/-- A segment whose source is read as that segment. -/
def Segment.WellFormed : Segment → Prop
  | .bare c => c ≠ '\x27' ∧ c ≠ '\x22' ∧ c ≠ '\\'
  | .escaped _ => True
  | .single span => '\x27' ∉ span
  | .double span => ∀ p ∈ span, p.WellFormed

/-- A character that joins any word outside quotes, also at the word's start. -/
def isWordChar (c : Char) : Bool :=
  !([' ', '\t', '\r', '\n', ';', '|', '&', '\x27', '\x22', '\\', '#'].contains c)

/-- A segment that joins any word, also at the word's start. -/
def Segment.Joins (x : Segment) : Prop :=
  x.WellFormed ∧ ∀ c, x = .bare c → isWordChar c = true

theorem Segment.joins_bare {c : Char} (h : isWordChar c = true) : (Segment.bare c).Joins := by
  refine ⟨?_, fun d hd => ?_⟩
  · refine ⟨?_, ?_, ?_⟩ <;> rintro rfl <;> revert h <;> decide
  · rw [Segment.bare.injEq] at hd
    exact hd ▸ h

/-! ## The scan -/

namespace State

/-- The characters join the text of the statement. -/
def advanceOver (s : State) (cs : List Char) : State :=
  cs.foldl advance s

@[simp] theorem advanceOver_nil (s : State) : s.advanceOver [] = s := rfl

@[simp] theorem advanceOver_cons (s : State) (c : Char) (cs : List Char) :
    s.advanceOver (c :: cs) = (s.advance c).advanceOver cs := rfl

theorem advanceOver_append (s : State) (xs ys : List Char) :
    s.advanceOver (xs ++ ys) = (s.advanceOver xs).advanceOver ys :=
  List.foldl_append

@[simp] theorem text_advanceOver (s : State) (cs : List Char) :
    (s.advanceOver cs).text = cs.reverse ++ s.text := by
  induction cs generalizing s with
  | nil => rfl
  | cons c cs ih =>
    rw [advanceOver_cons, ih]
    simp [advance]

/-- Advancing leaves what is gathered as it is. -/
theorem advanceOver_same (s : State) (cs : List Char) :
    (s.advanceOver cs).mode = s.mode ∧ (s.advanceOver cs).word = s.word ∧
      (s.advanceOver cs).words = s.words ∧ (s.advanceOver cs).statements = s.statements := by
  induction cs generalizing s with
  | nil => exact ⟨rfl, rfl, rfl, rfl⟩
  | cons c cs ih => exact ih (s.advance c)

@[simp] theorem mode_advanceOver (s : State) (cs : List Char) :
    (s.advanceOver cs).mode = s.mode := (advanceOver_same s cs).1

@[simp] theorem word_advanceOver (s : State) (cs : List Char) :
    (s.advanceOver cs).word = s.word := (advanceOver_same s cs).2.1

@[simp] theorem words_advanceOver (s : State) (cs : List Char) :
    (s.advanceOver cs).words = s.words := (advanceOver_same s cs).2.2.1

@[simp] theorem statements_advanceOver (s : State) (cs : List Char) :
    (s.advanceOver cs).statements = s.statements := (advanceOver_same s cs).2.2.2

/-- Where the scan stands does not hang on when the text grew. -/
theorem advanceOver_enter (s : State) (m : Mode) (cs : List Char) :
    (s.advanceOver cs).enter m = (s.enter m).advanceOver cs := by
  induction cs generalizing s with
  | nil => rfl
  | cons c cs ih => exact ih (s.advance c)

theorem advanceOver_push (s : State) (x : Segment) (cs : List Char) :
    (s.advanceOver cs).push x = (s.push x).advanceOver cs := by
  induction cs generalizing s with
  | nil => rfl
  | cons c cs ih => exact ih (s.advance c)

theorem run_cons_ok {s t : State} {c : Char} (h : s.step c = .ok t) (cs : List Char) :
    s.run (c :: cs) = t.run cs := by
  rw [run, h]

theorem run_cons_error {s : State} {c : Char} {m : Malformed} (h : s.step c = .error m)
    (cs : List Char) : s.run (c :: cs) = .error m := by
  rw [run, h]

theorem step_of_bare {s : State} (hm : s.mode = .bare) (c : Char) : s.step c = s.stepBare c := by
  rw [step, hm]

theorem step_isWordChar {s : State} {c : Char} (hm : s.mode = .bare) (hc : isWordChar c = true) :
    s.step c = .ok ((s.push (.bare c)).advance c) := by
  simp only [isWordChar, Bool.not_eq_true', List.contains_eq_mem, List.mem_cons, List.not_mem_nil,
    or_false, decide_eq_false_iff_not, not_or] at hc
  obtain ⟨h₁, h₂, h₃, h₄, h₅, h₆, h₇, h₈, h₉, h₁₀, h₁₁⟩ := hc
  rw [step_of_bare hm]
  simp only [stepBare, h₁, h₂, h₃, h₄, h₅, h₆, h₇, h₈, h₉, h₁₀, h₁₁, or_false, false_and, if_false]

theorem run_single {s : State} {span rev rest : List Char} (h : '\x27' ∉ span) :
    (s.enter (.single rev)).run (span ++ '\x27' :: rest) =
      ((s.push (.single (rev.reverse ++ span))).advanceOver (span ++ ['\x27'])).run rest := by
  induction span generalizing s rev with
  | nil =>
    rw [List.nil_append, run_cons_ok (t := (s.push (.single rev.reverse)).advance '\x27') rfl]
    simp
  | cons c span ih =>
    obtain ⟨hc, hspan⟩ := not_or.1 (mt List.mem_cons.2 h)
    have hstep : (s.enter (.single rev)).step c =
        .ok (((s.advance c).enter (.single (c :: rev)))) := by
      show (if c = '\x27' then _ else _) = _
      rw [if_neg (Ne.symm hc)]
      rfl
    rw [List.cons_append, run_cons_ok hstep, ih hspan]
    simp only [List.reverse_cons, List.append_assoc, List.cons_append, List.nil_append]
    rfl

section Escapes

variable {s : State} {c : Char} {start : Nat} {rev : List Piece} {r : Radix}

theorem step_backslash_double (hm : s.mode = .double rev) :
    s.step '\\' = .ok ((s.enter (.quotedEscape s.offset rev)).advance '\\') := by
  rw [step, hm]
  rfl

theorem step_letter (hm : s.mode = .quotedEscape start rev) (r : Radix) :
    s.step r.letter = .ok ((s.enter (.firstDigit start rev r)).advance r.letter) := by
  rw [step, hm]
  cases r <;> rfl

theorem step_firstDigit (hm : s.mode = .firstDigit start rev r) (hc : (r.digit? c).isSome) :
    s.step c = .ok ((s.enter (.secondDigit start rev r c)).advance c) := by
  rw [step, hm]
  exact if_pos hc

theorem step_secondDigit {high : Char} (hm : s.mode = .secondDigit start rev r high)
    (hc : (r.digit? c).isSome) :
    s.step c = .ok ((s.enter (.double (.numeric r high c :: rev))).advance c) := by
  rw [step, hm]
  exact if_pos hc

end Escapes

/-- In double quotes the scan goes over a piece and notes it. -/
theorem run_piece {s : State} {p : Piece} {rev : List Piece} {rest : List Char}
    (h : p.WellFormed) :
    (s.enter (.double rev)).run (p.source ++ rest) =
      ((s.enter (.double (p :: rev))).advanceOver p.source).run rest := by
  cases p with
  | char c =>
    have hstep : (s.enter (.double rev)).step c =
        .ok ((s.enter (.double (.char c :: rev))).advance c) := by
      show (if c = '\x22' then _ else if c = '\\' then _ else _) = _
      rw [if_neg h.1, if_neg h.2]
      rfl
    exact run_cons_ok hstep rest
  | control k =>
    have hletter : ((s.advance '\\').enter (.quotedEscape s.offset rev)).step k.letter =
        .ok (((s.advance '\\').enter (.double (.control k :: rev))).advance k.letter) := by
      show stepQuotedEscape _ _ _ _ = _
      rw [stepQuotedEscape, Control.ofLetter?_letter]
      rfl
    show State.run _ ('\\' :: k.letter :: rest) = _
    rw [run_cons_ok (step_backslash_double rfl)]
    exact run_cons_ok hletter rest
  | numeric r high low =>
    show State.run _ ('\\' :: r.letter :: high :: low :: rest) = _
    rw [run_cons_ok (step_backslash_double rfl), run_cons_ok (step_letter rfl r),
      run_cons_ok (step_firstDigit rfl h.1), run_cons_ok (step_secondDigit rfl h.2)]
    rfl

theorem run_double {s : State} {span rev : List Piece} {rest : List Char}
    (h : ∀ p ∈ span, p.WellFormed) :
    (s.enter (.double rev)).run (span.flatMap Piece.source ++ '\x22' :: rest) =
      ((s.push (.double (rev.reverse ++ span))).advanceOver
        (span.flatMap Piece.source ++ ['\x22'])).run rest := by
  induction span generalizing s rev with
  | nil =>
    show (s.enter (.double rev)).run ('\x22' :: rest) = _
    rw [run_cons_ok (t := (s.push (.double rev.reverse)).advance '\x22') rfl]
    simp
  | cons p span ih =>
    obtain ⟨hp, hspan⟩ := List.forall_mem_cons.1 h
    rw [List.flatMap_cons, List.append_assoc, run_piece hp, ← advanceOver_enter, ih hspan,
      List.append_assoc p.source, advanceOver_append _ p.source, advanceOver_push,
      List.reverse_cons, List.append_assoc rev.reverse]
    rfl

/-- **Segments.** Outside quotes the scan reads the source of a segment as that segment. -/
theorem run_segment {s : State} {x : Segment} (hm : s.mode = .bare) (hx : x.Joins)
    (rest : List Char) :
    s.run (x.source ++ rest) = ((s.push x).advanceOver x.source).run rest := by
  cases x with
  | bare c => exact run_cons_ok (step_isWordChar hm (hx.2 c rfl)) rest
  | escaped c =>
    have hback : s.step '\\' = .ok ((s.advance '\\').enter .escape) := by
      rw [step, hm]
      rfl
    have hchar : ((s.advance '\\').enter .escape).step c =
        .ok (((s.advance '\\').push (.escaped c)).advance c) := rfl
    show s.run ('\\' :: c :: rest) = _
    rw [run_cons_ok hback, run_cons_ok hchar]
    rfl
  | single span =>
    have hquote : s.step '\x27' = .ok ((s.advance '\x27').enter (.single [])) := by
      rw [step, hm]
      rfl
    show s.run ('\x27' :: span ++ ['\x27'] ++ rest) = _
    rw [List.append_assoc, List.cons_append, run_cons_ok hquote]
    exact run_single hx.1
  | double span =>
    have hquote : s.step '\x22' = .ok ((s.advance '\x22').enter (.double [])) := by
      rw [step, hm]
      rfl
    show s.run ('\x22' :: span.flatMap Piece.source ++ ['\x22'] ++ rest) = _
    rw [List.append_assoc, List.cons_append, run_cons_ok hquote]
    exact run_double hx.1

/-- Segments join the word outside quotes, one after the other. -/
def pushAll (s : State) (xs : List Segment) : State :=
  { s with mode := .bare, word := xs.reverse ++ s.word }

@[simp] theorem mode_pushAll (s : State) (xs : List Segment) : (s.pushAll xs).mode = .bare := rfl

@[simp] theorem word_pushAll (s : State) (xs : List Segment) :
    (s.pushAll xs).word = xs.reverse ++ s.word := rfl

@[simp] theorem words_pushAll (s : State) (xs : List Segment) :
    (s.pushAll xs).words = s.words := rfl

@[simp] theorem statements_pushAll (s : State) (xs : List Segment) :
    (s.pushAll xs).statements = s.statements := rfl

theorem pushAll_pushAll (s : State) (xs ys : List Segment) :
    (s.pushAll xs).pushAll ys = s.pushAll (xs ++ ys) := by
  simp [pushAll]

theorem advanceOver_pushAll (s : State) (xs : List Segment) (cs : List Char) :
    (s.advanceOver cs).pushAll xs = (s.pushAll xs).advanceOver cs := by
  induction cs generalizing s with
  | nil => rfl
  | cons c cs ih => exact ih (s.advance c)

/-- **Runs of segments.** Outside quotes the scan reads the sources of segments as these. -/
theorem run_segments {s : State} {xs : List Segment} (hm : s.mode = .bare)
    (hxs : ∀ x ∈ xs, x.Joins) (rest : List Char) :
    s.run (xs.flatMap Segment.source ++ rest) =
      ((s.pushAll xs).advanceOver (xs.flatMap Segment.source)).run rest := by
  induction xs generalizing s with
  | nil =>
    have hs : s.pushAll [] = s := by
      unfold pushAll
      rw [← hm]
      rfl
    rw [List.flatMap_nil, List.nil_append, advanceOver_nil, hs]
  | cons x xs ih =>
    obtain ⟨hx, hxs⟩ := List.forall_mem_cons.1 hxs
    rw [List.flatMap_cons, List.append_assoc, run_segment hm hx, ih (by simp [push]) hxs,
      advanceOver_append, advanceOver_pushAll]
    have hpush : (s.push x).pushAll xs = s.pushAll (x :: xs) := pushAll_pushAll s [x] xs
    rw [hpush]

end State

end Runbook.Shell
