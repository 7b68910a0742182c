import Runbook.Proofs.Shell.Spelling

/-!
# The normal text of a command

The words of a command, with single blanks between two words and ` ; ` between two statements, are
its normal text. A scan finds the same words in it, statement by statement (`tokenize_normalText`):
every word stands where a word may begin, and the blank behind it ends it there
(`State.Finds.append`).
-/

namespace Runbook.Shell

/-- Words with single blanks between them. -/
def wordLine (ws : List Word) : List Char :=
  [' '].intercalate (ws.map Word.source)

/-- Statements with single blanks between their words and ` ; ` between two of them. -/
def normalText (statements : List Statement) : String :=
  " ; ".intercalate (statements.map fun s => " ".intercalate s.wordTexts)

/-- The statement as it stands in a normal text. -/
def Statement.normal (s : Statement) : Statement :=
  ⟨String.ofList (Text.trim (wordLine s.words)), s.words⟩

theorem map_words_normal (statements : List Statement) :
    (statements.map Statement.normal).map Statement.words = statements.map Statement.words :=
  List.map_map

theorem toList_normalText (statements : List Statement) : (normalText statements).toList =
    [' ', ';', ' '].intercalate (statements.map fun s => wordLine s.words) := by
  unfold normalText
  rw [String.toList_intercalate, List.map_map]
  congr 1
  refine List.map_congr_left fun s _ => ?_
  show (" ".intercalate (s.words.map Word.text)).toList = _
  rw [String.toList_intercalate, List.map_map]
  unfold wordLine
  congr 1
  exact List.map_congr_left fun w _ => String.toList_ofList

namespace State

variable {s t u t' u' : State} {cs ds : List Char} {w : Word} {ws vs : List Word}

/-! ## Words of one statement -/

/-- A word may begin: the scan stands outside quotes and behind no character of a word. -/
structure AwaitsWord (s : State) : Prop where
  mode : s.mode = .bare
  word : s.word = []

/-- The characters are further words of the statement, which may end behind them as `u`. -/
structure Finds (s : State) (cs : List Char) (ws : List Word) (t u : State) : Prop where
  run : s.run cs = .ok t
  mode : t.mode ≠ .comment
  last : t.lastWord? = some u
  word : u.word = []
  words : u.words = ws.reverse ++ s.words
  text : u.text = cs.reverse ++ s.text
  statements : u.statements = s.statements

/-- A blank ends the last word. -/
theorem step_blank_of_lastWord? (hmode : s.mode ≠ .comment) (hlast : s.lastWord? = some u)
    (hword : u.word = []) : s.step ' ' = .ok ((u.enter .bare).advance ' ') := by
  have hbare {v : State} (hv : v.word = []) :
      v.stepBare ' ' = .ok ((v.enter .bare).advance ' ') := by
    rw [stepBare, if_pos (.inl rfl), endWord_of_word hv]
  unfold lastWord? at hlast
  unfold step
  cases hm : s.mode <;> rw [hm] at hlast <;> dsimp only at hlast
  case bare =>
    obtain rfl := Option.some.inj hlast
    rfl
  case comment => exact absurd hm hmode
  case ampersand =>
    obtain rfl := Option.some.inj hlast
    exact hbare hword
  case bar =>
    obtain rfl := Option.some.inj hlast
    exact hbare hword
  all_goals cases hlast

theorem AwaitsWord.step_blank (hs : s.AwaitsWord) : s.step ' ' = .ok (s.advance ' ') := by
  have hsame : s.enter .bare = s := by
    unfold enter
    rw [← hs.mode]
  rw [State.step_blank hs.mode, endWord_of_word hs.word, hsame]

theorem AwaitsWord.step_semicolon (hs : s.AwaitsWord) (hwords : s.words ≠ []) :
    s.step ';' = .ok (s.separate ';') := by
  rw [step_of_bare hs.mode, stepBare_separator (.inr rfl), endWord_of_word hs.word,
    if_neg fun h => hwords (List.isEmpty_iff.1 h.2)]

theorem awaitsWord_blank (hword : u.word = []) : ((u.enter .bare).advance ' ').AwaitsWord :=
  ⟨rfl, hword⟩

/-- **Words.** Words behind a blank are further words. -/
theorem Finds.append (h : s.Finds cs ws t u)
    (h' : ((u.enter .bare).advance ' ').Finds ds vs t' u') :
    s.Finds (cs ++ ' ' :: ds) (ws ++ vs) t' u' where
  run := by
    rw [run_append, h.run]
    exact (run_cons_ok (step_blank_of_lastWord? h.mode h.last h.word) ds).trans h'.run
  mode := h'.mode
  last := h'.last
  word := h'.word
  words := by
    rw [h'.words]
    show vs.reverse ++ u.words = _
    rw [h.words]
    simp
  text := by
    rw [h'.text]
    show ds.reverse ++ (' ' :: u.text) = _
    rw [h.text]
    simp
  statements := h'.statements.trans h.statements

theorem exists_finds_operator (hs : s.AwaitsWord) (hw : w.IsOperator) :
    ∃ t u, s.Finds w.source [w] t u := by
  obtain ⟨hmode, hword⟩ := hs
  have hbar : s.step '|' = .ok ((s.enter .bar).advance '|') := by
    rw [step_of_bare hmode]
    simp [stepBare, endWord_of_word hword]
  have hampersand := step_ampersand_apart hmode (by simp [afterAngle, hword])
  have hended : ((s.enter .ampersand).advance '&').endWord = (s.enter .ampersand).advance '&' :=
    endWord_of_word hword
  have hdoubled : ((s.enter .ampersand).advance '&').step '&' =
      .ok ((((s.enter .ampersand).advance '&').pushWord (.ofBare ['&', '&'])).advance '&') :=
    congrArg (fun v => Except.ok ((pushWord v (.ofBare ['&', '&'])).advance '&')) hended
  rcases hw with rfl | rfl | rfl | rfl <;> rw [Word.source_ofBare]
  · exact ⟨_, _, run_cons_ok hbar [], by rintro ⟨⟩, rfl, hword, rfl, rfl, rfl⟩
  · exact ⟨_, _, run_cons_ok hbar ['|'], by rintro ⟨⟩, congrArg some (endWord_of_word hword),
      hword, rfl, rfl, rfl⟩
  · exact ⟨_, _, run_cons_ok hampersand [], by rintro ⟨⟩,
      congrArg (fun v => some (pushWord v (.ofBare ['&']))) hended, hword, rfl, rfl, rfl⟩
  · exact ⟨_, _, (run_cons_ok hampersand ['&']).trans (run_cons_ok hdoubled []), by rintro ⟨⟩,
      congrArg some (endWord_of_word hword), hword, rfl, rfl, rfl⟩

theorem exists_finds_spelling (hs : s.AwaitsWord) (hne : w.segments ≠ [])
    (hw : Spelling w.segments.reverse) : ∃ t u, s.Finds w.source [w] t u := by
  have hrun := readsSegments_of_spelling hw hs.mode hs.word
  rw [List.reverse_reverse] at hrun
  have hbegun : ((s.pushAll w.segments).advanceOver w.source).word ≠ [] := by
    simp [hne]
  refine ⟨(s.pushAll w.segments).advanceOver w.source, _, hrun, by simp,
    by rw [lastWord?, mode_advanceOver, mode_pushAll], word_endWord _, ?_, ?_, ?_⟩
  · rw [words_endWord hbegun]
    simp [hs.word]
  · rw [(endWord_same _).1, text_advanceOver]
    rfl
  · rw [(endWord_same _).2.1, statements_advanceOver]
    rfl

theorem exists_finds_word (hs : s.AwaitsWord) (hw : w.IsSpelled) :
    ∃ t u, s.Finds w.source [w] t u := by
  rcases hw with hw | ⟨hne, hw⟩
  · exact exists_finds_operator hs hw
  · exact exists_finds_spelling hs hne hw

theorem exists_finds_words (hs : s.AwaitsWord) (hws : ∀ w ∈ ws, w.IsSpelled) (hne : ws ≠ []) :
    ∃ t u, s.Finds (wordLine ws) ws t u := by
  unfold wordLine
  induction ws generalizing s with
  | nil => exact absurd rfl hne
  | cons w ws ih =>
    obtain ⟨hw, hws⟩ := List.forall_mem_cons.1 hws
    obtain ⟨t, u, h⟩ := exists_finds_word hs hw
    cases ws with
    | nil => exact ⟨t, u, by rwa [List.map_singleton, List.intercalate_singleton]⟩
    | cons v ws =>
      obtain ⟨t', u', h'⟩ := ih (awaitsWord_blank h.word) hws (List.cons_ne_nil v ws)
      rw [List.map_cons, List.map_cons, List.intercalate_cons_cons, List.append_assoc]
      exact ⟨t', u', h.append h'⟩

/-! ## Statements -/

/-- A statement may begin: it has no word yet, and no text but blanks. -/
structure AwaitsStatement (s : State) : Prop extends s.AwaitsWord where
  words : s.words = []
  text : ∀ c ∈ s.text, Text.isBlank c = true

theorem AwaitsWord.separate (hs : s.AwaitsWord) (c : Char) : (s.separate c).AwaitsStatement := by
  rw [separate_eq]
  exact ⟨⟨rfl, hs.word⟩, rfl, nofun⟩

theorem AwaitsStatement.blank (hs : s.AwaitsStatement) : (s.advance ' ').AwaitsStatement :=
  ⟨⟨hs.mode, hs.word⟩, hs.words, List.forall_mem_cons.2 ⟨rfl, hs.text⟩⟩

variable {x : Statement} {xs : List Statement}

/-- The words make up the statement, also with blanks behind them. -/
theorem Finds.statements_endStatement {v : State} (hs : s.AwaitsStatement)
    (h : s.Finds (wordLine x.words) x.words t u) (hne : x.words ≠ []) (bs : List Char)
    (hbs : ∀ c ∈ bs, Text.isBlank c = true) (hwords : v.words = u.words)
    (htext : v.text = bs ++ u.text) (hstatements : v.statements = u.statements) :
    v.endStatement.statements = x.normal :: s.statements := by
  have hall : v.words = x.words.reverse := by rw [hwords, h.words, hs.words, List.append_nil]
  have htrim : Text.trim v.text.reverse = Text.trim (wordLine x.words) := by
    rw [htext, h.text, List.reverse_append, List.reverse_append, List.reverse_reverse,
      List.append_assoc, Text.trim_append_of_blank (by simpa using hs.text),
      Text.trim_append_blank (by simpa using hbs)]
  unfold endStatement Statement.normal
  rw [if_neg (by simpa [hall] using hne), hall, htrim, hstatements, h.statements,
    List.reverse_reverse]

/-- A `;` with blanks around it ends the statement, and another one may begin. -/
theorem Finds.exists_separated (hs : s.AwaitsStatement)
    (h : s.Finds (wordLine x.words) x.words t u) (hne : x.words ≠ []) :
    ∃ v : State, t.run [' ', ';', ' '] = .ok v ∧ v.AwaitsStatement ∧
      v.statements = x.normal :: s.statements := by
  have hwords : ((u.enter .bare).advance ' ').words ≠ [] := by
    show u.words ≠ []
    rw [h.words]
    simp [hne]
  have hfirst := step_blank_of_lastWord? h.mode h.last h.word
  have hsemicolon := (awaitsWord_blank h.word).step_semicolon hwords
  have hstatement := (awaitsWord_blank h.word).separate ';'
  refine ⟨_, (run_cons_ok hfirst _).trans ((run_cons_ok hsemicolon _).trans
    (run_cons_ok hstatement.step_blank [])), hstatement.blank, ?_⟩
  · show (separate _ ';').statements = _
    rw [separate_eq]
    have hbs : ∀ c ∈ [' '], Text.isBlank c = true := by simp [Text.isBlank]
    exact h.statements_endStatement hs hne [' '] hbs rfl rfl rfl

/-- **Statements.** Where a statement may begin, statements with ` ; ` between them are read as
these. -/
theorem exists_run_statements (hs : s.AwaitsStatement)
    (hxs : ∀ x ∈ xs, x.words ≠ [] ∧ ∀ w ∈ x.words, w.IsSpelled) (hne : xs ≠ []) :
    ∃ t u, s.run ([' ', ';', ' '].intercalate (xs.map fun x => wordLine x.words)) = .ok t ∧
      t.lastWord? = some u ∧
      u.endStatement.statements = (xs.map Statement.normal).reverse ++ s.statements := by
  induction xs generalizing s with
  | nil => exact absurd rfl hne
  | cons x xs ih =>
    obtain ⟨⟨hx, hwords⟩, hxs⟩ := List.forall_mem_cons.1 hxs
    obtain ⟨t, u, h⟩ := exists_finds_words hs.toAwaitsWord hwords hx
    cases xs with
    | nil =>
      refine ⟨t, u, by rw [List.map_singleton, List.intercalate_singleton, h.run], h.last, ?_⟩
      exact h.statements_endStatement hs hx [] nofun rfl rfl rfl
    | cons y xs =>
      obtain ⟨v, hrun, hv, hstatements⟩ := h.exists_separated hs hx
      obtain ⟨t', u', hrun', hlast, hall⟩ := ih hv hxs (List.cons_ne_nil y xs)
      refine ⟨t', u', ?_, hlast, ?_⟩
      · rw [List.map_cons, List.map_cons, List.intercalate_cons_cons, List.append_assoc, run_append,
          h.run]
        show t.run _ = _
        rw [run_append, hrun]
        exact hrun'
      · rw [hall, hstatements]
        simp

end State

/-- **Normal texts.** The normal text of a command has the same words in the same statements. -/
theorem tokenize_normalText {text : String} {statements : List Statement}
    (h : tokenize text = .complete statements) :
    tokenize (normalText statements) = .complete (statements.map Statement.normal) := by
  by_cases hnil : statements = []
  · subst hnil
    rfl
  · have hspelled : ∀ x ∈ statements, x.words ≠ [] ∧ ∀ w ∈ x.words, w.IsSpelled := fun x hx =>
      ⟨words_ne_nil_of_tokenize h hx, fun _ hw => isSpelled_of_tokenize h hx hw⟩
    have hstart : State.start.AwaitsStatement := ⟨⟨rfl, rfl⟩, rfl, nofun⟩
    obtain ⟨t, u, hrun, hlast, hall⟩ := State.exists_run_statements hstart hspelled hnil
    unfold tokenize
    rw [toList_normalText]
    refine scan_eq_complete_iff.2 ⟨t, u, hrun, hlast, ?_⟩
    rw [hall]
    simp [State.start]

/-- Words with `;` between those of two statements, and blanks between all of them, are the normal
text. -/
theorem intercalate_wordTexts {statements : List Statement}
    (h : ∀ s ∈ statements, s.words ≠ []) :
    " ".intercalate (List.intercalate [";"] (statements.map Statement.wordTexts)) =
      normalText statements := by
  unfold normalText
  induction statements with
  | nil => rfl
  | cons s rest ih =>
    obtain ⟨hs, hrest⟩ := List.forall_mem_cons.1 h
    cases rest with
    | nil => simp
    | cons s' rest =>
      have hhead : s.wordTexts ≠ [] := by simpa [Statement.wordTexts] using hs
      have htail : List.intercalate [";"] ((s' :: rest).map Statement.wordTexts) ≠ [] := by
        have hnext : s'.wordTexts ≠ [] := by
          simpa [Statement.wordTexts] using hrest s' List.mem_cons_self
        cases rest <;> simp [List.intercalate_cons_cons, hnext]
      have hseparator : " " ++ ";" ++ " " = " ; " := rfl
      rw [List.map_cons, List.map_cons, List.map_cons, List.intercalate_cons_cons,
        ← List.map_cons, String.intercalate_append_of_ne_nil (by simp) htail, ih hrest,
        String.intercalate_append_of_ne_nil hhead (by simp), String.intercalate_singleton,
        List.map_cons, String.intercalate_cons_cons, ← hseparator]
      simp only [String.append_assoc]

end Runbook.Shell
