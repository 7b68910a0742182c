import Mathlib.Tactic.SplitIfs
import Runbook.Proofs.Shell.Words

/-!
# What one more character does

A character that is not refused joins the text of the current statement, or it is a separator and
ends the statement (`State.consumes_of_step`). It is refused for an empty statement, or for the
escape in double quotes that it stands in (`State.refuses_of_step`).
-/

namespace Runbook.Shell

/-- Where the backslash of the current escape in double quotes stands. -/
def Mode.escapeStart? : Mode → Option Nat
  | .quotedEscape start _ => some start
  | .firstDigit start _ _ => some start
  | .secondDigit start _ _ _ => some start
  | _ => none

/-- The characters that a kind of quoting keeps back from the word. -/
def Mode.pending : Mode → List Char
  | .bare => []
  | .comment => []
  | .ampersand => ['&']
  | .bar => ['|']
  | .escape => ['\\']
  | .single rev => '\x27' :: rev.reverse
  | .double rev => '\x22' :: rev.reverse.flatMap Piece.source
  | .quotedEscape _ rev => '\x22' :: rev.reverse.flatMap Piece.source ++ ['\\']
  | .firstDigit _ rev r => '\x22' :: rev.reverse.flatMap Piece.source ++ ['\\', r.letter]
  | .secondDigit _ rev r high =>
    '\x22' :: rev.reverse.flatMap Piece.source ++ ['\\', r.letter, high]

theorem Control.eq_letter_of_ofLetter? {c : Char} {k : Control} (h : ofLetter? c = some k) :
    c = k.letter := by
  unfold ofLetter? at h
  split_ifs at h with ht hr hn hb <;> obtain rfl := Option.some.inj h
  · exact ht
  · exact hr
  · exact hn
  · exact hb

namespace State

variable {s t u : State} {c : Char}

/-- The state with its last word finished, where a statement may end. -/
def lastWord? (s : State) : Option State :=
  match s.mode with
  | .bare | .comment => some s.endWord
  | .ampersand => some (s.endWord.pushWord (.ofBare ['&']))
  | .bar => some (s.pushWord (.ofBare ['|']))
  | _ => none

/-- The state whose statement the character ends, when it is a separator here. -/
def ending? (s : State) (c : Char) : Option State :=
  if c = '\n' ∨ (c = ';' ∧ s.mode ≠ .comment) then s.lastWord?.map endWord else none

theorem finish?_eq (s : State) :
    s.finish? = s.lastWord?.map fun u => u.endStatement.statements.reverse := by
  unfold finish? lastWord?
  cases s.mode <;> rfl

theorem offset_endWord (s : State) : s.endWord.offset = s.offset := by
  unfold endWord
  split <;> rfl

theorem word_endWord (s : State) : s.endWord.word = [] :=
  (endWord_same s).2.2

theorem endWord_of_word (h : s.word = []) : s.endWord = s := by
  unfold endWord
  rw [h]
  rfl

theorem endWord_endWord (s : State) : s.endWord.endWord = s.endWord :=
  endWord_of_word (word_endWord s)

theorem lastWord?_same (h : s.lastWord? = some u) :
    u.text = s.text ∧ u.statements = s.statements ∧ u.offset = s.offset := by
  obtain ⟨htext, hstatements, -⟩ := endWord_same s
  have hoffset := offset_endWord s
  unfold lastWord? at h
  split at h
  · obtain rfl := Option.some.inj h
    exact ⟨htext, hstatements, hoffset⟩
  · obtain rfl := Option.some.inj h
    exact ⟨htext, hstatements, hoffset⟩
  · obtain rfl := Option.some.inj h
    exact ⟨htext, hstatements, hoffset⟩
  · obtain rfl := Option.some.inj h
    exact ⟨rfl, rfl, rfl⟩
  · cases h

theorem ending?_same (h : s.ending? c = some u) :
    u.text = s.text ∧ u.statements = s.statements ∧ u.offset = s.offset := by
  unfold ending? at h
  split at h
  · obtain ⟨v, hv, rfl⟩ := Option.map_eq_some_iff.1 h
    obtain ⟨htext, hstatements, -⟩ := endWord_same v
    obtain ⟨htext', hstatements', hoffset'⟩ := lastWord?_same hv
    exact ⟨htext.trans htext', hstatements.trans hstatements', (offset_endWord v).trans hoffset'⟩
  · cases h

/-! ## Separators -/

/-- A separator leaves nothing of the statement but the finished statements. -/
theorem separate_eq (u : State) (c : Char) : u.separate c =
    { u with
      mode := .bare
      offset := u.offset + c.utf8Size
      text := []
      words := []
      statements := u.endStatement.statements } := by
  unfold separate endStatement
  split
  · next hempty =>
    dsimp only
    rw [List.isEmpty_iff.1 hempty]
  · rfl

theorem stepBare_separator (hc : c = '\n' ∨ c = ';') : s.stepBare c =
    if c = ';' ∧ s.endWord.words.isEmpty = true then .error ⟨s.offset, .emptyStatement⟩
    else .ok (s.endWord.separate c) := by
  unfold stepBare
  rcases hc with rfl | rfl
  · rw [if_neg (by decide), if_pos rfl, if_neg (by simp)]
  · rw [if_neg (by decide), if_neg (by decide), if_pos rfl]
    simp

/-- A separator ends the statement, unless it is a `;` with no word before it. -/
theorem step_of_ending? (h : s.ending? c = some u) : s.step c =
    if c = ';' ∧ u.words.isEmpty = true then .error ⟨s.offset, .emptyStatement⟩
    else .ok (u.separate c) := by
  unfold ending? at h
  split at h
  · next hc =>
    have hseparator : c = '\n' ∨ c = ';' := hc.imp_right And.left
    obtain ⟨v, hv, rfl⟩ := Option.map_eq_some_iff.1 h
    have hbare := stepBare_separator (s := v) hseparator
    rw [(lastWord?_same hv).2.2] at hbare
    unfold lastWord? at hv
    unfold step
    cases hmode : s.mode with
    | bare =>
      rw [hmode] at hv
      obtain rfl := Option.some.inj hv
      rw [endWord_endWord]
      exact stepBare_separator hseparator
    | comment =>
      rw [hmode] at hv
      obtain rfl := Option.some.inj hv
      obtain rfl : c = '\n' := hc.resolve_right fun h => h.2 hmode
      rw [endWord_endWord]
      exact stepBare_separator hseparator
    | ampersand =>
      rw [hmode] at hv
      obtain rfl := Option.some.inj hv
      have hother : c ≠ '>' ∧ c ≠ '&' := by rcases hseparator with rfl | rfl <;> decide
      rw [← hbare]
      simp only [hother, if_false]
    | bar =>
      rw [hmode] at hv
      obtain rfl := Option.some.inj hv
      have hother : c ≠ '|' := by rcases hseparator with rfl | rfl <;> decide
      rw [← hbare]
      simp only [hother, if_false]
    | _ =>
      rw [hmode] at hv
      cases hv
  · cases h

/-! ## Other characters -/

/-- What a character does that is not refused. -/
inductive Consumes (s : State) (c : Char) (t : State) : Prop
  /-- It joins the text of the statement; behind a backslash in double quotes an escape begins. -/
  | joins (htext : t.text = c :: s.text) (hstatements : t.statements = s.statements)
    (hoffset : t.offset = s.offset + c.utf8Size) (hbare : t.mode = .escape → c = '\\')
    (hescape : ∀ start, t.mode.escapeStart? = some start →
      s.mode.escapeStart? = some start ∨ start = s.offset ∧ c = '\\')
  /-- It ends the statement. -/
  | separates (u : State) (hending : s.ending? c = some u) (heq : t = u.separate c)

theorem consumes_advance (hu : u.text = s.text ∧ u.statements = s.statements ∧ u.offset = s.offset)
    (hbare : u.mode = .escape → c = '\\')
    (hescape : ∀ start, u.mode.escapeStart? = some start →
      s.mode.escapeStart? = some start ∨ start = s.offset ∧ c = '\\') :
    s.Consumes c (u.advance c) :=
  .joins (congrArg (c :: ·) hu.1) hu.2.1 (congrArg (· + c.utf8Size) hu.2.2) hbare hescape

theorem consumes_of_stepBare {s' : State} (h : s'.stepBare c = .ok t) (hc : ¬(c = '\n' ∨ c = ';'))
    (hsame : s'.text = s.text ∧ s'.statements = s.statements ∧ s'.offset = s.offset) :
    s.Consumes c t := by
  obtain ⟨hnewline, hsemicolon⟩ := not_or.1 hc
  obtain ⟨htext, hstatements, hoffset⟩ := hsame
  obtain ⟨htext', hstatements', -⟩ := endWord_same s'
  have hended : s'.endWord.text = s.text ∧ s'.endWord.statements = s.statements ∧
      s'.endWord.offset = s.offset :=
    ⟨htext'.trans htext, hstatements'.trans hstatements, (offset_endWord s').trans hoffset⟩
  unfold stepBare at h
  split_ifs at h with _ _ _ _ _ _ hbackslash <;> obtain rfl := Except.ok.inj h
  · exact consumes_advance hended nofun nofun
  · exact consumes_advance hended nofun nofun
  · exact consumes_advance ⟨htext, hstatements, hoffset⟩ nofun nofun
  · exact consumes_advance ⟨htext, hstatements, hoffset⟩ nofun nofun
  · exact consumes_advance ⟨htext, hstatements, hoffset⟩ nofun nofun
  · exact consumes_advance ⟨htext, hstatements, hoffset⟩ nofun nofun
  · exact consumes_advance ⟨htext, hstatements, hoffset⟩ (fun _ => hbackslash) nofun
  · exact consumes_advance ⟨htext, hstatements, hoffset⟩ nofun nofun
  · exact consumes_advance ⟨htext, hstatements, hoffset⟩ nofun nofun

/-! ## Quoting -/

/-- What a character does where no statement may end. -/
inductive Quotes (s : State) (c : Char) : State → Prop
  /-- With it what was kept back is a segment of the word. -/
  | finishes (x : Segment) (hsource : x.source = s.mode.pending ++ [c]) (hx : ∀ d, x ≠ .bare d) :
    Quotes s c ((s.push x).advance c)
  /-- It is kept back as well; behind a backslash in double quotes an escape begins. -/
  | keeps (m : Mode) (hpending : m.pending = s.mode.pending ++ [c])
    (hm : m ≠ .escape ∧ m ≠ .bar ∧ m ≠ .comment)
    (hescape : m.escapeStart? = none ∨ m.escapeStart? = s.mode.escapeStart? ∨
      m.escapeStart? = some s.offset ∧ c = '\\') :
    Quotes s c ((s.enter m).advance c)

theorem quotes_of_stepQuotedEscape {start : Nat} {rev : List Piece}
    (hmode : s.mode = .quotedEscape start rev) (h : s.stepQuotedEscape start rev c = .ok t) :
    s.Quotes c t := by
  have hstart : s.mode.escapeStart? = some start := by rw [hmode]; rfl
  unfold stepQuotedEscape at h
  split at h
  · next k hk =>
    obtain rfl := Except.ok.inj h
    refine .keeps _ ?_ (by simp) (.inl rfl)
    simp [hmode, Mode.pending, Piece.source, Control.eq_letter_of_ofLetter? hk]
  · split_ifs at h with hx hzero <;> obtain rfl := Except.ok.inj h
    · exact .keeps _ (by simp [hmode, Mode.pending, hx]) (by simp) (.inr (.inl hstart.symm))
    · exact .keeps _ (by simp [hmode, Mode.pending, hzero]) (by simp) (.inr (.inl hstart.symm))

/-- Inside quotes and behind a backslash no character is lost: it is kept back with the ones before
it, or together they are a segment. -/
theorem quotes_of_step (h : s.step c = .ok t) (hlast : s.lastWord? = none) : s.Quotes c t := by
  unfold step at h
  unfold lastWord? at hlast
  cases hmode : s.mode <;> rw [hmode] at h hlast <;> dsimp only at h hlast
  case escape =>
    obtain rfl := Except.ok.inj h
    exact .finishes _ (by rw [hmode]; rfl) (by simp)
  case single rev =>
    split_ifs at h with hquote <;> obtain rfl := Except.ok.inj h
    · exact .finishes _ (by simp [hmode, Mode.pending, Segment.source, hquote]) (by simp)
    · exact .keeps _ (by simp [hmode, Mode.pending]) (by simp) (.inl rfl)
  case double rev =>
    split_ifs at h with hquote hback <;> obtain rfl := Except.ok.inj h
    · exact .finishes _ (by simp [hmode, Mode.pending, Segment.source, hquote]) (by simp)
    · exact .keeps _ (by simp [hmode, Mode.pending, hback]) (by simp) (.inr (.inr ⟨rfl, hback⟩))
    · exact .keeps _ (by simp [hmode, Mode.pending, Piece.source]) (by simp) (.inl rfl)
  case quotedEscape start rev => exact quotes_of_stepQuotedEscape hmode h
  case firstDigit start rev r =>
    split_ifs at h
    obtain rfl := Except.ok.inj h
    exact .keeps _ (by simp [hmode, Mode.pending]) (by simp) (.inr (.inl (by rw [hmode]; rfl)))
  case secondDigit start rev r high =>
    split_ifs at h
    obtain rfl := Except.ok.inj h
    exact .keeps _ (by simp [hmode, Mode.pending, Piece.source]) (by simp) (.inl rfl)
  all_goals cases hlast

theorem pending_ne_nil (hlast : s.lastWord? = none) : s.mode.pending ≠ [] := by
  intro hnil
  unfold lastWord? at hlast
  cases hmode : s.mode <;> rw [hmode] at hlast hnil
  case bare | comment | ampersand | bar => cases hlast
  all_goals cases hnil

theorem Quotes.consumes (h : s.Quotes c t) : s.Consumes c t := by
  cases h with
  | finishes x _ _ => exact consumes_advance ⟨rfl, rfl, rfl⟩ nofun nofun
  | keeps m _ hm hescape =>
    refine consumes_advance ⟨rfl, rfl, rfl⟩ (fun hmode => absurd hmode hm.1) fun start hstart => ?_
    replace hstart : m.escapeStart? = some start := hstart
    rcases hescape with hnone | hsame | ⟨hhere, hc⟩
    · cases hnone.symm.trans hstart
    · exact .inl (hsame.symm.trans hstart)
    · exact .inr ⟨(Option.some.inj (hhere.symm.trans hstart)).symm, hc⟩

/-! ## One character -/

theorem not_separator (h : s.ending? c = none) (hlast : s.lastWord? = some u) :
    ¬(c = '\n' ∨ (c = ';' ∧ s.mode ≠ .comment)) := by
  intro hc
  rw [ending?, if_pos hc, hlast] at h
  cases h

/-- **One character.** A character that is not refused joins a text or ends it. -/
theorem consumes_of_step (h : s.step c = .ok t) : s.Consumes c t := by
  cases hending : s.ending? c with
  | some u =>
    rw [step_of_ending? hending] at h
    split_ifs at h
    exact .separates u hending (Except.ok.inj h).symm
  | none =>
    cases hlast : s.lastWord? with
    | none => exact (quotes_of_step h hlast).consumes
    | some u =>
      have hc := not_separator hending hlast
      have hended : s.endWord.text = s.text ∧ s.endWord.statements = s.statements ∧
          s.endWord.offset = s.offset :=
        ⟨(endWord_same s).1, (endWord_same s).2.1, offset_endWord s⟩
      unfold step at h
      unfold lastWord? at hlast
      cases hmode : s.mode <;> rw [hmode] at h hlast hc <;> dsimp only at h hlast
      case bare => exact consumes_of_stepBare h (by simpa using hc) ⟨rfl, rfl, rfl⟩
      case comment =>
        rw [if_neg (not_or.1 hc).1] at h
        obtain rfl := Except.ok.inj h
        refine consumes_advance ⟨rfl, rfl, rfl⟩ ?_ ?_ <;> rw [hmode] <;> exact nofun
      case ampersand =>
        split_ifs at h
        · exact consumes_of_stepBare h (by simpa using hc) ⟨rfl, rfl, rfl⟩
        · obtain rfl := Except.ok.inj h
          exact consumes_advance hended nofun nofun
        · exact consumes_of_stepBare h (by simpa using hc) hended
      case bar =>
        split_ifs at h
        · obtain rfl := Except.ok.inj h
          exact consumes_advance ⟨rfl, rfl, rfl⟩ nofun nofun
        · exact consumes_of_stepBare h (by simpa using hc) ⟨rfl, rfl, rfl⟩
      all_goals cases hlast

/-! ## Runs -/

/-- What every character keeps, of the scan and of the text it has read, is kept by a run. -/
theorem run_invariant (P : State → List Char → Prop)
    (hstep : ∀ {s t : State} {c : Char} {read : List Char}, P s read → s.step c = .ok t →
      P t (read ++ [c]))
    {s : State} (read : List Char) {cs : List Char} (h : P s read) (hrun : s.run cs = .ok t) :
    P t (read ++ cs) := by
  induction cs generalizing s read with
  | nil =>
    obtain rfl := Except.ok.inj hrun
    rwa [List.append_nil]
  | cons c cs ih =>
    rw [run] at hrun
    split at hrun
    · next u hu =>
      rw [List.append_cons]
      exact ih (read ++ [c]) (hstep h hu) hrun
    · cases hrun

theorem exists_of_run_append {cs ds : List Char} (h : s.run (cs ++ ds) = .ok t) :
    ∃ u, s.run cs = .ok u ∧ u.run ds = .ok t := by
  rw [run_append] at h
  cases hrun : s.run cs with
  | error m =>
    rw [hrun] at h
    cases h
  | ok u =>
    rw [hrun] at h
    exact ⟨u, rfl, h⟩

theorem exists_of_run_concat {cs : List Char} (h : s.run (cs ++ [c]) = .ok t) :
    ∃ u, s.run cs = .ok u ∧ u.step c = .ok t := by
  obtain ⟨u, hrun, hlast⟩ := exists_of_run_append h
  refine ⟨u, hrun, ?_⟩
  rw [run] at hlast
  split at hlast
  · next v hstep => rw [hstep, ← hlast]; rfl
  · cases hlast

/-- A run is refused at its first character that is. -/
theorem exists_of_run_error {cs : List Char} {m : Malformed} (h : s.run cs = .error m) :
    ∃ read c behind t, cs = read ++ c :: behind ∧ s.run read = .ok t ∧ t.step c = .error m := by
  induction cs generalizing s with
  | nil => cases h
  | cons c cs ih =>
    cases hstep : s.step c with
    | ok u =>
      rw [run_cons_ok hstep] at h
      obtain ⟨read, d, behind, t, rfl, hread, hd⟩ := ih h
      exact ⟨c :: read, d, behind, t, rfl, (run_cons_ok hstep read).trans hread, hd⟩
    | error m' =>
      rw [run_cons_error hstep] at h
      obtain rfl := Except.error.inj h
      exact ⟨[], c, cs, s, rfl, rfl, hstep⟩

/-! ## Faults -/

/-- Why a character is refused where the scan stands. -/
inductive Refuses (s : State) (c : Char) : Malformed → Prop
  | emptyStatement (hmode : s.mode = .bare) (hword : s.word = []) (hwords : s.words = [])
    (hc : c = ';') : Refuses s c ⟨s.offset, .emptyStatement⟩
  | unsupportedEscape {start : Nat} {rev : List Piece} (hmode : s.mode = .quotedEscape start rev)
    (hcontrol : ∀ k : Control, c ≠ k.letter) (hradix : ∀ r : Radix, c ≠ r.letter) :
    Refuses s c ⟨start, .unsupportedEscape c⟩
  | firstDigit {start : Nat} {rev : List Piece} {r : Radix}
    (hmode : s.mode = .firstDigit start rev r) (hc : ¬(r.digit? c).isSome = true) :
    Refuses s c ⟨start, .missingDigits r⟩
  | secondDigit {start : Nat} {rev : List Piece} {r : Radix} {high : Char}
    (hmode : s.mode = .secondDigit start rev r high) (hc : ¬(r.digit? c).isSome = true) :
    Refuses s c ⟨start, .missingDigits r⟩

theorem eq_nil_of_endWord (h : s.endWord.words = []) : s.word = [] ∧ s.words = [] := by
  by_cases hword : s.word = []
  · rw [endWord_of_word hword] at h
    exact ⟨hword, h⟩
  · rw [words_endWord hword] at h
    cases h

/-- Outside quotes only a `;` is refused, and only where no word stands before it. -/
theorem exists_of_stepBare_error {m : Malformed} (h : s.stepBare c = .error m) :
    c = ';' ∧ s.word = [] ∧ s.words = [] ∧ m = ⟨s.offset, .emptyStatement⟩ := by
  unfold stepBare at h
  split_ifs at h with _ _ hc hempty
  obtain ⟨hword, hwords⟩ := eq_nil_of_endWord (List.isEmpty_iff.1 hempty)
  exact ⟨hc, hword, hwords, (Except.error.inj h).symm⟩

theorem refuses_of_stepQuotedEscape {start : Nat} {rev : List Piece} {m : Malformed}
    (hmode : s.mode = .quotedEscape start rev) (h : s.stepQuotedEscape start rev c = .error m) :
    s.Refuses c m := by
  unfold stepQuotedEscape at h
  split at h
  · cases h
  · next hnone =>
    split_ifs at h with hx hzero
    obtain rfl := Except.error.inj h
    refine .unsupportedEscape hmode ?_ ?_
    · rintro k rfl
      cases (Control.ofLetter?_letter k).symm.trans hnone
    · rintro (_ | _)
      · exact hx
      · exact hzero

/-- **One character.** It is refused for one of these reasons only. -/
theorem refuses_of_step {m : Malformed} (h : s.step c = .error m) : s.Refuses c m := by
  unfold step at h
  cases hmode : s.mode <;> rw [hmode] at h <;> dsimp only at h
  case bare =>
    obtain ⟨hc, hword, hwords, rfl⟩ := exists_of_stepBare_error h
    exact .emptyStatement hmode hword hwords hc
  case comment =>
    split_ifs at h with hc
    cases hc.symm.trans (exists_of_stepBare_error h).1
  case ampersand =>
    -- Behind an operator or a segment the statement has a word.
    split_ifs at h
    · cases (exists_of_stepBare_error h).2.1
    · cases (exists_of_stepBare_error h).2.2.1
  case bar =>
    split_ifs at h
    cases (exists_of_stepBare_error h).2.2.1
  case escape => cases h
  case single rev => split_ifs at h
  case double rev => split_ifs at h
  case quotedEscape start rev => exact refuses_of_stepQuotedEscape hmode h
  case firstDigit start rev r =>
    split_ifs at h with hc
    obtain rfl := Except.error.inj h
    exact .firstDigit hmode hc
  case secondDigit start rev r high =>
    split_ifs at h with hc
    obtain rfl := Except.error.inj h
    exact .secondDigit hmode hc

/-- A character is refused for an empty statement, or for the escape that it stands in. -/
theorem fault_of_step {m : Malformed} (h : s.step c = .error m) :
    c = ';' ∧ m.offset = s.offset ∨ s.mode.escapeStart? = some m.offset := by
  cases refuses_of_step h with
  | emptyStatement _ _ _ hc => exact .inl ⟨hc, rfl⟩
  | unsupportedEscape hmode => exact .inr (by rw [hmode]; rfl)
  | firstDigit hmode => exact .inr (by rw [hmode]; rfl)
  | secondDigit hmode => exact .inr (by rw [hmode]; rfl)

end State

end Runbook.Shell
