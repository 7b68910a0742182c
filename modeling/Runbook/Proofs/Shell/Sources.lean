import Runbook.Proofs.Shell.Gathering

/-!
# Characters of the words

The words of a statement are made up of the characters that were read, but for blanks between them
and a comment behind them: a character that joins the text joins a word, or it stands behind the
last one (`State.takes_of_step`). So characters that a scan has put into words stay at their start
(`State.Gathers.prefix_source`).
-/

namespace Runbook.Shell

namespace State

variable {s s' t u : State} {c : Char} {cs : List Char}

/-- The characters of the words so far, up to what the quoting keeps back. -/
def written (s : State) : List Char :=
  s.words.reverse.flatMap Word.source ++ s.word.reverse.flatMap Segment.source

/-- The characters of the words so far. -/
def source (s : State) : List Char :=
  s.written ++ s.mode.pending

theorem written_endWord (s : State) : s.endWord.written = s.written := by
  unfold endWord
  split
  · rfl
  · simp [written, Word.source]

theorem written_push (s : State) (x : Segment) : (s.push x).written = s.written ++ x.source := by
  simp [written, push]

theorem written_pushWord (h : s.word = []) (w : Word) :
    (s.pushWord w).written = s.written ++ w.source := by
  simp [written, pushWord, h]

theorem written_of_word (h : s.word = []) : s.written = s.words.reverse.flatMap Word.source := by
  simp [written, h]

/-- Behind a `|`, and in a comment, no word has begun. -/
def IsTidy (s : State) : Prop :=
  s.mode = .bar ∨ s.mode = .comment → s.word = []

/-- What a character does to the words that joins the text. -/
inductive Takes (s : State) (c : Char) (t : State) : Prop
  /-- It joins a word. -/
  | word (hsource : t.source = s.source ++ [c]) (htidy : t.IsTidy)
  /-- It stands behind the last word: a blank, or a part of a comment. -/
  | gap (u : State) (m : Mode) (hu : s.lastWord? = some u) (ht : t = (u.enter m).advance c)
    (hm : m = .bare ∧ (c = ' ' ∨ c = '\t' ∨ c = '\r') ∨
      m = .comment ∧ (s.mode = .comment ∨ c = '#'))

theorem takes_enter {m : Mode} (hsource : s'.written ++ m.pending = s.source ++ [c])
    (hm : m ≠ .bar ∧ m ≠ .comment) : s.Takes c ((s'.enter m).advance c) :=
  .word hsource fun h => absurd h (not_or.2 hm)

theorem takes_push {x : Segment} (hsource : s'.written ++ x.source = s.source ++ [c]) :
    s.Takes c ((s'.push x).advance c) := by
  refine .word ?_ (by nofun)
  show (s'.push x).written ++ [] = _
  rw [List.append_nil, written_push, hsource]

theorem takes_pushWord {w : Word} (hword : s'.word = [])
    (hsource : s'.written ++ w.source = s.source ++ [c]) :
    s.Takes c ((s'.pushWord w).advance c) := by
  refine .word ?_ (by nofun)
  show (s'.pushWord w).written ++ [] = _
  rw [List.append_nil, written_pushWord hword, hsource]

theorem takes_of_stepBare (h : s'.stepBare c = .ok t) (hc : ¬(c = '\n' ∨ c = ';'))
    (hlast : s.lastWord? = some s'.endWord) (hsource : s'.written = s.source) :
    s.Takes c t := by
  obtain ⟨hnewline, hsemicolon⟩ := not_or.1 hc
  unfold stepBare at h
  split_ifs at h with hblank hbar hand _ hsingle hdouble hescape hcomment <;>
    obtain rfl := Except.ok.inj h
  · exact .gap _ .bare hlast rfl (.inl ⟨rfl, hblank⟩)
  · refine .word ?_ fun _ => word_endWord s'
    show s'.endWord.written ++ ['|'] = _
    rw [written_endWord, hsource, hbar]
  · exact takes_push (congrArg (· ++ [c]) hsource)
  · exact takes_enter (by rw [hsource, hand]; rfl) (by simp)
  · exact takes_enter (by rw [hsource, hsingle]; rfl) (by simp)
  · exact takes_enter (by rw [hsource, hdouble]; rfl) (by simp)
  · exact takes_enter (by rw [hsource, hescape]; rfl) (by simp)
  · obtain ⟨hhash, hempty⟩ := hcomment
    rw [endWord_of_word (List.isEmpty_iff.1 hempty)] at hlast
    exact .gap _ .comment hlast rfl (.inr ⟨rfl, .inr hhash⟩)
  · exact takes_push (congrArg (· ++ [c]) hsource)

theorem takes_of_comment (h : s.step c = .ok t) (hmode : s.mode = .comment) (hword : s.word = [])
    (hc : c ≠ '\n') : s.Takes c t := by
  rw [step, hmode] at h
  dsimp only at h
  rw [if_neg hc] at h
  obtain rfl := Except.ok.inj h
  have hlast : s.lastWord? = some s := by rw [lastWord?, hmode, endWord_of_word hword]
  refine .gap s .comment hlast ?_ (.inr ⟨rfl, .inl hmode⟩)
  rw [enter, ← hmode]

/-- Behind a `&` the character redirects, is a second `&`, or stands behind the operator. -/
theorem takes_of_ampersand (h : s.step c = .ok t) (hmode : s.mode = .ampersand)
    (hc : ¬(c = '\n' ∨ c = ';')) : s.Takes c t := by
  have hsource : s.written ++ ['&'] = s.source := by rw [source, hmode, Mode.pending]
  rw [step, hmode] at h
  dsimp only at h
  split_ifs at h with hangle hand
  · subst hangle
    obtain rfl := Except.ok.inj (h : Except.ok _ = _)
    refine takes_push ?_
    rw [written_push, ← hsource]
    rfl
  · obtain rfl := Except.ok.inj h
    refine takes_pushWord (word_endWord s) ?_
    rw [written_endWord, ← hsource, hand, List.append_assoc, Word.source_ofBare]
    rfl
  · have hword : (s.endWord.pushWord (.ofBare ['&'])).word = [] := word_endWord s
    refine takes_of_stepBare h hc ?_ ?_
    · rw [endWord_of_word hword, lastWord?, hmode]
    · rw [written_pushWord (word_endWord s), written_endWord, Word.source_ofBare, hsource]

/-- Behind a `|` the character is a second `|`, or it stands behind the operator. -/
theorem takes_of_bar (h : s.step c = .ok t) (hmode : s.mode = .bar) (hword : s.word = [])
    (hc : ¬(c = '\n' ∨ c = ';')) : s.Takes c t := by
  have hsource : s.written ++ ['|'] = s.source := by rw [source, hmode, Mode.pending]
  rw [step, hmode] at h
  dsimp only at h
  split_ifs at h with hbar
  · obtain rfl := Except.ok.inj h
    refine takes_pushWord hword ?_
    rw [← hsource, hbar, List.append_assoc, Word.source_ofBare]
    rfl
  · refine takes_of_stepBare h hc ?_ ?_
    · rw [endWord_of_word (s := s.pushWord _) hword, lastWord?, hmode]
    · rw [written_pushWord hword, Word.source_ofBare, hsource]

theorem Quotes.takes (h : s.Quotes c t) : s.Takes c t := by
  cases h with
  | finishes x hsource _ => exact takes_push (by rw [hsource, source, List.append_assoc])
  | keeps m hpending hm _ => exact takes_enter (by rw [hpending, source, List.append_assoc]) hm.2

/-- **Words.** A character that joins the text joins a word, or it stands behind the last one. -/
theorem takes_of_step (h : s.step c = .ok t) (htidy : s.IsTidy) (hending : s.ending? c = none) :
    s.Takes c t := by
  cases hlast : s.lastWord? with
  | none => exact (quotes_of_step h hlast).takes
  | some u =>
    have hc := not_separator hending hlast
    cases hmode : s.mode with
    | bare =>
      rw [step, hmode] at h
      refine takes_of_stepBare h (by simpa [hmode] using hc) (by rw [lastWord?, hmode]) ?_
      rw [source, hmode, Mode.pending, List.append_nil]
    | comment => exact takes_of_comment h hmode (htidy (.inr hmode)) (not_or.1 hc).1
    | ampersand => exact takes_of_ampersand h hmode (by simpa [hmode] using hc)
    | bar => exact takes_of_bar h hmode (htidy (.inl hmode)) (by simpa [hmode] using hc)
    | _ =>
      rw [lastWord?, hmode] at hlast
      cases hlast

theorem lastWord?_finished (hs : s.IsTidy) (h : s.lastWord? = some u) :
    u.word = [] ∧ u.written = s.source := by
  unfold lastWord? at h
  cases hmode : s.mode <;> rw [hmode] at h <;> dsimp only at h
  case bare =>
    obtain rfl := Option.some.inj h
    exact ⟨word_endWord s, by simp [source, hmode, Mode.pending, written_endWord]⟩
  case comment =>
    obtain rfl := Option.some.inj h
    exact ⟨word_endWord s, by simp [source, hmode, Mode.pending, written_endWord]⟩
  case ampersand =>
    obtain rfl := Option.some.inj h
    refine ⟨word_endWord s, ?_⟩
    rw [written_pushWord (word_endWord s), written_endWord, Word.source_ofBare, source, hmode]
    rfl
  case bar =>
    obtain rfl := Option.some.inj h
    have hword : s.word = [] := hs (.inl hmode)
    refine ⟨hword, ?_⟩
    rw [written_pushWord hword, Word.source_ofBare, source, hmode]
    rfl
  all_goals cases h

theorem lastWord?_gap {m : Mode} (hword : u.word = []) (hm : m = .bare ∨ m = .comment) (c : Char) :
    ((u.enter m).advance c).lastWord? = some ((u.enter m).advance c) := by
  have hend : ((u.enter m).advance c).endWord = (u.enter m).advance c := endWord_of_word hword
  rcases hm with rfl | rfl <;> exact congrArg some hend

theorem Takes.isTidy (h : s.Takes c t) (hs : s.IsTidy) : t.IsTidy := by
  cases h with
  | word _ htidy => exact htidy
  | gap u m hu ht _ =>
    subst ht
    exact fun _ => (lastWord?_finished hs hu).1

theorem Takes.prefix_source (h : s.Takes c t) (hs : s.IsTidy) : s.source <+: t.source := by
  cases h with
  | word hsource _ =>
    rw [hsource]
    exact List.prefix_append _ _
  | gap u m hu ht hm =>
    subst ht
    rw [← (lastWord?_finished hs hu).2]
    exact List.prefix_append _ _

theorem Gathers.isTidy (h : s.Gathers cs t) (hs : s.IsTidy) : t.IsTidy := by
  induction h with
  | nil => exact hs
  | cons hending hstep _ ih => exact ih ((takes_of_step hstep hs hending).isTidy hs)

theorem Gathers.prefix_source (h : s.Gathers cs t) (hs : s.IsTidy) : s.source <+: t.source := by
  induction h with
  | nil => exact List.prefix_rfl
  | cons hending hstep _ ih =>
    have htakes := takes_of_step hstep hs hending
    exact (htakes.prefix_source hs).trans (ih (htakes.isTidy hs))

theorem Gathers.alike_comment (h : s.Gathers cs t) (hmode : s.mode = .comment) : t.Alike s := by
  induction h with
  | nil => exact ⟨rfl, rfl, rfl⟩
  | @cons s t u c cs hending hstep _ ih =>
    have hc := not_separator hending (u := s.endWord) (by rw [lastWord?, hmode])
    unfold step at hstep
    rw [hmode] at hstep
    dsimp only at hstep
    rw [if_neg (not_or.1 hc).1] at hstep
    obtain rfl := Except.ok.inj hstep
    have hrest := ih hmode
    exact ⟨hrest.mode, hrest.word, hrest.words⟩

end State

end Runbook.Shell
