import Runbook.Proofs.Shell.Steps

/-!
# Scans with the same words

What the next character does to the words of a statement does not hang on what was read before the
statement. So scans that have the same words, and stand in the same kind of quoting, go on in the
same way (`State.Alike.step`). Characters among which no separator stands are gathered into one
statement (`State.Gathers`), and scans with the same words gather the same ones from them.
-/

namespace Runbook.Shell

/-! ## The same words -/

/-- The kind of quoting, without the place at which an escape began. -/
def Mode.placeless : Mode → Mode
  | .quotedEscape _ rev => .quotedEscape 0 rev
  | .firstDigit _ rev r => .firstDigit 0 rev r
  | .secondDigit _ rev r high => .secondDigit 0 rev r high
  | m => m

/-- Outside of escapes the kind of quoting is all there is. -/
theorem Mode.eq_of_placeless {m m' : Mode} (h : m.placeless = m'.placeless)
    (hm : m.escapeStart? = none) : m = m' := by
  cases m <;> cases hm <;> cases m' <;> cases h <;> rfl

namespace State

variable {s s' t u : State} {c : Char} {cs ds : List Char}

/-- Two scans that have the same words of their current statements. -/
structure Alike (s s' : State) : Prop where
  mode : s.mode.placeless = s'.mode.placeless
  word : s.word = s'.word
  words : s.words = s'.words

/-- Both scans go on, and alike, or both refuse the character. -/
inductive Results : Except Malformed State → Except Malformed State → Prop
  | ok {s s' : State} (h : s.Alike s') : Results (.ok s) (.ok s')
  | error (m m' : Malformed) : Results (.error m) (.error m')

theorem Results.ite {p : Prop} [Decidable p] {x x' y y' : Except Malformed State}
    (hx : Results x x') (hy : Results y y') :
    Results (if p then x else y) (if p then x' else y') := by
  split
  · exact hx
  · exact hy

namespace Alike

theorem advance (h : s.Alike s') (c : Char) : (s.advance c).Alike (s'.advance c) :=
  ⟨h.mode, h.word, h.words⟩

theorem ok_enter (h : s.Alike s') (c : Char) {m m' : Mode} (hm : m.placeless = m'.placeless) :
    Results (.ok ((s.enter m).advance c)) (.ok ((s'.enter m').advance c)) :=
  .ok ⟨hm, h.word, h.words⟩

theorem push (h : s.Alike s') (x : Segment) : (s.push x).Alike (s'.push x) :=
  ⟨rfl, congrArg (x :: ·) h.word, h.words⟩

theorem pushWord (h : s.Alike s') (w : Word) : (s.pushWord w).Alike (s'.pushWord w) :=
  ⟨rfl, h.word, congrArg (w :: ·) h.words⟩

theorem endWord (h : s.Alike s') : s.endWord.Alike s'.endWord := by
  unfold State.endWord
  rw [h.word]
  split
  · exact h
  · exact ⟨h.mode, rfl, congrArg (_ :: ·) h.words⟩

theorem afterAngle (h : s.Alike s') : s.afterAngle = s'.afterAngle := by
  unfold State.afterAngle
  rw [h.word]

theorem separate (h : s.Alike s') (c : Char) : (s.separate c).Alike (s'.separate c) := by
  rw [separate_eq, separate_eq]
  exact ⟨rfl, h.word, rfl⟩

theorem stepBare (h : s.Alike s') (c : Char) : Results (s.stepBare c) (s'.stepBare c) := by
  unfold State.stepBare
  rw [h.afterAngle, h.word, h.endWord.words]
  refine .ite (h.endWord.ok_enter c rfl) (.ite (.ok (h.endWord.separate c)) (.ite ?semicolon
    (.ite (h.endWord.ok_enter c rfl) (.ite ?ampersand (.ite (h.ok_enter c rfl)
      (.ite (h.ok_enter c rfl) (.ite (h.ok_enter c rfl)
        (.ite (h.ok_enter c rfl) (.ok ((h.push _).advance c))))))))))
  case semicolon => exact .ite (.error _ _) (.ok (h.endWord.separate c))
  case ampersand => exact .ite (.ok ((h.push _).advance c)) (h.ok_enter c rfl)

theorem stepQuotedEscape (h : s.Alike s') (start start' : Nat) (rev : List Piece) (c : Char) :
    Results (s.stepQuotedEscape start rev c) (s'.stepQuotedEscape start' rev c) := by
  unfold State.stepQuotedEscape
  split
  · exact h.ok_enter c rfl
  · exact .ite (h.ok_enter c rfl) (.ite (h.ok_enter c rfl) (.error _ _))

/-- **The same words.** Scans with the same words go on in the same way. -/
theorem step (h : s.Alike s') (c : Char) : Results (s.step c) (s'.step c) := by
  have hmode := h.mode
  unfold State.step
  cases hs : s.mode <;> rw [hs] at hmode <;> cases hs' : s'.mode <;> rw [hs'] at hmode <;>
    cases hmode <;> dsimp only
  case bare.bare => exact h.stepBare c
  case comment.comment => exact .ite (h.stepBare c) (.ok (h.advance c))
  case ampersand.ampersand =>
    exact .ite ((h.push _).stepBare c) (.ite (.ok ((h.endWord.pushWord _).advance c))
      ((h.endWord.pushWord _).stepBare c))
  case bar.bar => exact .ite (.ok ((h.pushWord _).advance c)) ((h.pushWord _).stepBare c)
  case escape.escape => exact .ok ((h.push _).advance c)
  case single.single => exact .ite (.ok ((h.push _).advance c)) (h.ok_enter c rfl)
  case double.double =>
    exact .ite (.ok ((h.push _).advance c)) (.ite (h.ok_enter c rfl) (h.ok_enter c rfl))
  case quotedEscape.quotedEscape => exact h.stepQuotedEscape _ _ _ c
  case firstDigit.firstDigit => exact .ite (h.ok_enter c rfl) (.error _ _)
  case secondDigit.secondDigit => exact .ite (h.ok_enter c rfl) (.error _ _)

theorem exists_step (h : s.Alike s') (hstep : s.step c = .ok t) :
    ∃ t', s'.step c = .ok t' ∧ t.Alike t' := by
  have hresults := h.step c
  rw [hstep] at hresults
  generalize s'.step c = r at hresults
  cases hresults with
  | ok ht => exact ⟨_, rfl, ht⟩

theorem lastWord? (h : s.Alike s') : Option.Rel Alike s.lastWord? s'.lastWord? := by
  have hmode := h.mode
  unfold State.lastWord?
  cases hs : s.mode <;> rw [hs] at hmode <;> cases hs' : s'.mode <;> rw [hs'] at hmode <;>
    cases hmode
  case bare.bare => exact .some h.endWord
  case comment.comment => exact .some h.endWord
  case ampersand.ampersand => exact .some (h.endWord.pushWord _)
  case bar.bar => exact .some (h.pushWord _)
  all_goals exact .none

theorem exists_lastWord? (h : s.Alike s') (hlast : s.lastWord? = some u) :
    ∃ u', s'.lastWord? = some u' ∧ u.Alike u' := by
  have hrel := h.lastWord?
  rw [hlast] at hrel
  generalize s'.lastWord? = o at hrel
  cases hrel with
  | some hu => exact ⟨_, rfl, hu⟩

theorem ending?_eq_none (h : s.Alike s') (hending : s.ending? c = none) :
    s'.ending? c = none := by
  have hcomment (hs : s.mode = .comment) : s'.mode = .comment :=
    (Mode.eq_of_placeless h.mode (by rw [hs]; rfl)).symm.trans hs
  have hlast := h.lastWord?
  unfold ending? at hending ⊢
  split
  · next hc =>
    rw [if_pos (hc.imp_right fun hc => ⟨hc.1, mt hcomment hc.2⟩)] at hending
    rw [Option.map_eq_none_iff.1 hending] at hlast
    generalize s'.lastWord? = o at hlast
    cases hlast
    rfl
  · rfl

end Alike

/-! ## Characters of one statement -/

/-- Characters that all join the text of the current statement. -/
inductive Gathers : State → List Char → State → Prop
  | nil (s : State) : Gathers s [] s
  | cons {s t u : State} {c : Char} {cs : List Char} (hending : s.ending? c = none)
    (hstep : s.step c = .ok t) (hrest : Gathers t cs u) : Gathers s (c :: cs) u

namespace Gathers

theorem snoc (h : s.Gathers cs t) (hending : t.ending? c = none) (hstep : t.step c = .ok u) :
    s.Gathers (cs ++ [c]) u := by
  induction h with
  | nil => exact .cons hending hstep (.nil u)
  | cons hc hs _ ih => exact .cons hc hs (ih hending hstep)

theorem exists_of_append (h : s.Gathers (cs ++ ds) u) :
    ∃ t, s.Gathers cs t ∧ t.Gathers ds u := by
  induction cs generalizing s with
  | nil => exact ⟨s, .nil s, h⟩
  | cons c cs ih =>
    cases h with
    | cons hending hstep hrest =>
      obtain ⟨t, ht, htu⟩ := ih hrest
      exact ⟨t, .cons hending hstep ht, htu⟩

theorem run (h : s.Gathers cs t) : s.run cs = .ok t := by
  induction h with
  | nil => rfl
  | cons _ hstep _ ih => exact (run_cons_ok hstep _).trans ih

theorem same (h : s.Gathers cs t) :
    t.text = cs.reverse ++ s.text ∧ t.statements = s.statements := by
  induction h with
  | nil => exact ⟨rfl, rfl⟩
  | cons hending hstep _ ih =>
    cases consumes_of_step hstep with
    | joins htext hstatements =>
      refine ⟨?_, ih.2.trans hstatements⟩
      rw [ih.1, htext, List.reverse_cons, List.append_assoc]
      rfl
    | separates _ hu => cases hending.symm.trans hu

/-- Scans with the same words gather the same ones from the same characters. -/
theorem exists_alike (h : s.Gathers cs t) (hs : s.Alike s') :
    ∃ t', s'.Gathers cs t' ∧ t.Alike t' := by
  induction h generalizing s' with
  | nil => exact ⟨s', .nil s', hs⟩
  | @cons s t u c cs hending hstep _ ih =>
    obtain ⟨v, hv, htv⟩ := hs.exists_step hstep
    obtain ⟨t', ht', hut'⟩ := ih htv
    exact ⟨t', .cons (hs.ending?_eq_none hending) hv ht', hut'⟩

end Gathers

end State

end Runbook.Shell
