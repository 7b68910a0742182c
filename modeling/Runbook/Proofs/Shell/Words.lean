import Runbook.Proofs.Shell.Segments

/-!
# Reading words back

Words written one after the other, with a blank between two of them, are one statement with these
words (`scan_words`).
-/

namespace Runbook.Shell

/-- A word that the scan reads as itself: it has segments, and each joins any word. -/
def Word.Joins (w : Word) : Prop :=
  w.segments ≠ [] ∧ ∀ x ∈ w.segments, x.Joins

/-- A blank and a word, for each of some words. -/
def spaced (ws : List Word) : List Char :=
  ws.flatMap fun w => ' ' :: w.source

@[simp] theorem spaced_nil : spaced [] = [] := rfl

@[simp] theorem spaced_cons (w : Word) (ws : List Word) :
    spaced (w :: ws) = ' ' :: (w.source ++ spaced ws) := rfl

theorem getLast?_append_spaced {cs : List Char} {ws : List Word}
    (hcs : ∀ c, cs.getLast? = some c → Text.isBlank c = false)
    (hws : ∀ w ∈ ws, ∃ c, w.source.getLast? = some c ∧ Text.isBlank c = false) :
    ∀ c, (cs ++ spaced ws).getLast? = some c → Text.isBlank c = false := by
  induction ws generalizing cs with
  | nil => simpa using hcs
  | cons w ws ih =>
    obtain ⟨⟨d, hd, hblank⟩, hws⟩ := List.forall_mem_cons.1 hws
    rw [spaced_cons, ← List.cons_append, ← List.append_assoc]
    refine ih (fun c hc => ?_) hws
    rw [List.getLast?_append, List.getLast?_cons, hd] at hc
    obtain rfl := Option.some.inj hc
    exact hblank

namespace State

theorem words_endWord {s : State} (h : s.word ≠ []) :
    s.endWord.words = ⟨s.word.reverse⟩ :: s.words := by
  unfold endWord
  rw [if_neg (by simpa using h)]

theorem endWord_same (s : State) :
    s.endWord.text = s.text ∧ s.endWord.statements = s.statements ∧ s.endWord.word = [] := by
  unfold endWord
  split
  · next h => exact ⟨rfl, rfl, List.isEmpty_iff.1 h⟩
  · exact ⟨rfl, rfl, rfl⟩

theorem step_blank {s : State} (hm : s.mode = .bare) :
    s.step ' ' = .ok ((s.endWord.enter .bare).advance ' ') := by
  rw [step, hm]
  rfl

/-- After a word, a blank and a further word lead to the further word, the first one finished. -/
theorem run_blank_word {s : State} {w : Word} (hm : s.mode = .bare) (hw : w.Joins)
    (rest : List Char) :
    ∃ t : State, s.run (' ' :: (w.source ++ rest)) = t.run rest ∧ t.mode = .bare ∧
      t.word = w.segments.reverse ∧ t.words = s.endWord.words ∧
      t.text = (' ' :: w.source).reverse ++ s.text ∧ t.statements = s.statements := by
  obtain ⟨htext, hstatements, hword⟩ := endWord_same s
  refine ⟨((((s.endWord.enter .bare).advance ' ').pushAll w.segments).advanceOver w.source),
    ?_, ?_, ?_, ?_, ?_, ?_⟩
  · rw [run_cons_ok (step_blank hm), Word.source, run_segments rfl hw.2]
  · simp [pushAll]
  · rw [word_advanceOver]
    show w.segments.reverse ++ s.endWord.word = _
    rw [hword, List.append_nil]
  · simp [pushAll, advance, enter]
  · rw [text_advanceOver]
    show w.source.reverse ++ (' ' :: s.endWord.text) = _
    rw [htext, List.reverse_cons, List.append_assoc]
    rfl
  · simp [pushAll, advance, enter, hstatements]

/-- After a word the scan reads further words, each behind a blank. -/
theorem run_spaced {s : State} {ws : List Word} (hm : s.mode = .bare) (hword : s.word ≠ [])
    (hws : ∀ w ∈ ws, w.Joins) :
    ∃ t : State, s.run (spaced ws) = .ok t ∧ t.mode = .bare ∧
      t.endWord.words = ws.reverse ++ s.endWord.words ∧
      t.text = (spaced ws).reverse ++ s.text ∧ t.statements = s.statements := by
  induction ws generalizing s with
  | nil => exact ⟨s, rfl, hm, rfl, rfl, rfl⟩
  | cons w ws ih =>
    obtain ⟨hw, hws⟩ := List.forall_mem_cons.1 hws
    obtain ⟨u, hrun, humode, huword, huwords, hutext, hustatements⟩ :=
      run_blank_word hm hw (spaced ws)
    have hne : u.word ≠ [] := by
      rw [huword]
      simpa using hw.1
    obtain ⟨t, ht, htmode, htwords, httext, htstatements⟩ := ih humode hne hws
    refine ⟨t, ?_, htmode, ?_, ?_, htstatements.trans hustatements⟩
    · rw [spaced_cons, hrun, ht]
    · rw [htwords, words_endWord hne, huword, huwords]
      simp
    · rw [httext, hutext, spaced_cons]
      simp

theorem finish_one {s : State} (hm : s.mode = .bare) (hstatements : s.statements = [])
    (hwords : s.endWord.words ≠ []) :
    s.finish = .complete
      [⟨String.ofList (Text.trim s.text.reverse), s.endWord.words.reverse⟩] := by
  obtain ⟨htext, hsame, -⟩ := endWord_same s
  have hend : s.endWord.endStatement.statements =
      ⟨String.ofList (Text.trim s.text.reverse), s.endWord.words.reverse⟩ :: s.statements := by
    unfold endStatement
    rw [if_neg (by simpa using hwords), htext, hsame]
  have hfinish : s.finish? = some s.endWord.endStatement.statements.reverse := by
    unfold finish?
    rw [hm]
  unfold finish
  rw [hfinish, hend, hstatements]
  rfl

end State

/-- **Words.** A word, and further words behind a blank each, are one statement with these words,
and its text is the whole text, trimmed. -/
theorem scan_words {w : Word} {ws : List Word} (hw : w.Joins) (hws : ∀ v ∈ ws, v.Joins) :
    scan (w.source ++ spaced ws) =
      .complete [⟨String.ofList (Text.trim (w.source ++ spaced ws)), w :: ws⟩] := by
  have hfirst : State.start.run (w.source ++ spaced ws) =
      ((State.start.pushAll w.segments).advanceOver w.source).run (spaced ws) := by
    rw [Word.source, State.run_segments rfl hw.2]
  have hne : ((State.start.pushAll w.segments).advanceOver w.source).word ≠ [] := by
    rw [State.word_advanceOver]
    show w.segments.reverse ++ [] ≠ []
    simpa using hw.1
  obtain ⟨t, ht, htmode, htwords, httext, htstatements⟩ :=
    State.run_spaced (s := (State.start.pushAll w.segments).advanceOver w.source)
      (by simp [State.pushAll]) hne hws
  have hwords : t.endWord.words = ws.reverse ++ [w] := by
    rw [htwords, State.words_endWord hne, State.word_advanceOver, State.words_advanceOver]
    simp [State.pushAll, State.start]
  have htext : t.text = (w.source ++ spaced ws).reverse := by
    rw [httext, State.text_advanceOver, List.reverse_append]
    simp [State.pushAll, State.start]
  have hstatements : t.statements = [] := by
    rw [htstatements, State.statements_advanceOver]
    rfl
  unfold scan
  rw [hfirst, ht]
  show t.finish = _
  rw [State.finish_one htmode hstatements (by rw [hwords]; simp), hwords, htext]
  simp

end Runbook.Shell
