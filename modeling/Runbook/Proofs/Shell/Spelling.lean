import Runbook.Proofs.Shell.Outcomes
import Runbook.Proofs.Shell.FirstWords

/-!
# Spelling of words

Which segments a scan makes words of. Besides segments that join any word there are three that join
where they stand: a `#` that does not begin the word, and an `&` behind `<` or `>` or before `>`
(`Spelling`). Every word of a command is such a spelling or an operator (`isSpelled_of_tokenize`),
and where a word may begin the source of a spelling is read as its segments
(`State.readsSegments_of_spelling`).
-/

namespace Runbook.Shell

/-! ## Spelling -/

/-- A segment behind which an `&` belongs to a redirection. -/
def Segment.IsAngle (x : Segment) : Prop :=
  ∃ c, (x = .bare c ∨ x = .escaped c) ∧ (c = '<' ∨ c = '>')

/-- What a scan reads as the segments of a word, last one first. -/
inductive Spelling : List Segment → Prop
  | nil : Spelling []
  | joins {x : Segment} {xs : List Segment} (h : Spelling xs) (hx : x.Joins) : Spelling (x :: xs)
  /-- A `#` does not begin the word. -/
  | hash {xs : List Segment} (h : Spelling xs) (hne : xs ≠ []) : Spelling (.bare '#' :: xs)
  /-- An `&` stands behind `<` or `>`. -/
  | behindAngle {x : Segment} {xs : List Segment} (h : Spelling (x :: xs)) (hx : x.IsAngle) :
    Spelling (.bare '&' :: x :: xs)
  /-- An `&` stands before `>`. -/
  | beforeAngle {xs : List Segment} (h : Spelling xs) : Spelling (.bare '>' :: .bare '&' :: xs)

/-- A word that a scan finds: an operator, or segments as it reads them. -/
def Word.IsSpelled (w : Word) : Prop :=
  w.IsOperator ∨ w.segments ≠ [] ∧ Spelling w.segments.reverse

/-- What stands between the quotes so far is well formed. -/
def Mode.WellFormed : Mode → Prop
  | .single rev => '\x27' ∉ rev
  | .double rev => ∀ p ∈ rev, p.WellFormed
  | .quotedEscape _ rev => ∀ p ∈ rev, p.WellFormed
  | .firstDigit _ rev _ => ∀ p ∈ rev, p.WellFormed
  | .secondDigit _ rev r high => (∀ p ∈ rev, p.WellFormed) ∧ (r.digit? high).isSome
  | _ => True

theorem Segment.joins_escaped (c : Char) : (Segment.escaped c).Joins :=
  ⟨trivial, nofun⟩

theorem Segment.joins_single {rev : List Char} (h : '\x27' ∉ rev) :
    (Segment.single rev.reverse).Joins :=
  ⟨mt List.mem_reverse.1 h, nofun⟩

theorem Segment.joins_double {rev : List Piece} (h : ∀ p ∈ rev, p.WellFormed) :
    (Segment.double rev.reverse).Joins :=
  ⟨fun p hp => h p (List.mem_reverse.1 hp), nofun⟩

namespace State

variable {s t u : State} {c : Char} {w : Word}

theorem afterAngle_iff :
    s.afterAngle = true ↔ ∃ x xs, s.word = x :: xs ∧ x.IsAngle := by
  unfold afterAngle
  constructor
  · intro h
    split at h
    · next c xs hword => exact ⟨_, xs, hword, c, .inl rfl, of_decide_eq_true h⟩
    · next c xs hword => exact ⟨_, xs, hword, c, .inr rfl, of_decide_eq_true h⟩
    · cases h
  · rintro ⟨x, xs, hword, c, rfl | rfl, hc⟩ <;> rw [hword] <;> exact decide_eq_true hc

theorem stepBare_greater (s : State) :
    s.stepBare '>' = .ok ((s.push (.bare '>')).advance '>') := by
  simp [stepBare]

/-! ## Words of a scan -/

/-- The word is one of those finished. -/
def HasWord (s : State) (w : Word) : Prop :=
  w ∈ s.words ∨ ∃ x ∈ s.statements, w ∈ x.words

/-- Every word is as a scan reads it, the one that has begun included. -/
structure Spells (s : State) : Prop where
  word : Spelling s.word
  mode : s.mode.WellFormed
  finished : ∀ w, s.HasWord w → w.IsSpelled

theorem spells_start : start.Spells :=
  ⟨.nil, trivial, by rintro w (hw | ⟨x, hx, -⟩) <;> contradiction⟩

namespace Spells

theorem advance (h : s.Spells) (c : Char) : (s.advance c).Spells :=
  ⟨h.word, h.mode, h.finished⟩

theorem enter (h : s.Spells) (m : Mode) (hm : m.WellFormed) : (s.enter m).Spells :=
  ⟨h.word, hm, h.finished⟩

theorem note (h : s.Spells) (p : Piece) {rev : List Piece} (hp : p.WellFormed)
    (hrev : ∀ p ∈ rev, p.WellFormed) : (s.enter (.double (p :: rev))).Spells :=
  h.enter (.double (p :: rev)) (List.forall_mem_cons.2 ⟨hp, hrev⟩)

theorem push (h : s.Spells) {x : Segment} (hx : Spelling (x :: s.word)) : (s.push x).Spells :=
  ⟨hx, trivial, h.finished⟩

theorem pushWord (h : s.Spells) (hw : w.IsSpelled) : (s.pushWord w).Spells := by
  refine ⟨h.word, trivial, ?_⟩
  rintro v (hv | hv)
  · obtain rfl | hv := List.mem_cons.1 hv
    · exact hw
    · exact h.finished v (.inl hv)
  · exact h.finished v (.inr hv)

theorem endWord (h : s.Spells) : s.endWord.Spells := by
  by_cases hword : s.word = []
  · rwa [endWord_of_word hword]
  · have hfinished : s.endWord = { s with word := [], words := ⟨s.word.reverse⟩ :: s.words } := by
      unfold State.endWord
      rw [if_neg (by simpa using hword)]
    rw [hfinished]
    refine ⟨.nil, h.mode, ?_⟩
    rintro v (hv | hv)
    · obtain rfl | hv := List.mem_cons.1 hv
      · exact .inr ⟨by simpa using hword, by simpa using h.word⟩
      · exact h.finished v (.inl hv)
    · exact h.finished v (.inr hv)

/-- Where a statement ends, its words are those of a finished statement. -/
theorem hasWord_of_endStatement {x : Statement} (hx : x ∈ s.endStatement.statements)
    (hw : w ∈ x.words) : s.HasWord w := by
  unfold endStatement at hx
  split at hx
  · exact .inr ⟨x, hx, hw⟩
  · obtain rfl | hx := List.mem_cons.1 hx
    · exact .inl (List.mem_reverse.1 hw)
    · exact .inr ⟨x, hx, hw⟩

theorem separate (h : s.Spells) (c : Char) : (s.separate c).Spells := by
  rw [separate_eq]
  refine ⟨h.word, trivial, ?_⟩
  rintro w (hw | ⟨x, hx, hw⟩)
  · cases hw
  · exact h.finished w (hasWord_of_endStatement hx hw)

theorem stepBare (h : s.Spells) (hstep : s.stepBare c = .ok t) : t.Spells := by
  unfold State.stepBare at hstep
  split_ifs at hstep with hblank hnewline hsemicolon _ hbar hand hangle hsingle hdouble hescape
    hcomment <;> obtain rfl := Except.ok.inj hstep
  · exact (h.endWord.enter .bare trivial).advance c
  · exact h.endWord.separate c
  · exact h.endWord.separate c
  · exact (h.endWord.enter .bar trivial).advance c
  · obtain ⟨x, xs, hword, hx⟩ := afterAngle_iff.1 hangle
    have hspelling := h.word
    rw [hword] at hspelling
    refine (h.push ?_).advance c
    rw [hword, hand]
    exact hspelling.behindAngle hx
  · exact (h.enter .ampersand trivial).advance c
  · exact (h.enter (.single []) List.not_mem_nil).advance c
  · exact (h.enter (.double []) nofun).advance c
  · exact (h.enter .escape trivial).advance c
  · exact (h.enter .comment trivial).advance c
  · refine (h.push ?_).advance c
    by_cases hhash : c = '#'
    · subst hhash
      exact h.word.hash fun hnil => hcomment ⟨rfl, by rw [hnil]; rfl⟩
    · refine h.word.joins (Segment.joins_bare ?_)
      simp only [not_or] at hblank
      simp [isWordChar, hblank, hnewline, hsemicolon, hbar, hand, hsingle, hdouble, hescape, hhash]

theorem stepQuotedEscape (h : s.Spells) {start : Nat} {rev : List Piece}
    (hrev : ∀ p ∈ rev, p.WellFormed) (hstep : s.stepQuotedEscape start rev c = .ok t) :
    t.Spells := by
  unfold State.stepQuotedEscape at hstep
  split at hstep
  · obtain rfl := Except.ok.inj hstep
    exact (h.note (.control _) trivial hrev).advance c
  · split_ifs at hstep <;> obtain rfl := Except.ok.inj hstep
    · exact (h.enter (.firstDigit start rev _) hrev).advance c
    · exact (h.enter (.firstDigit start rev _) hrev).advance c

/-- **One character** makes well-formed segments and words. -/
theorem step (h : s.Spells) (hstep : s.step c = .ok t) : t.Spells := by
  have hwell := h.mode
  unfold State.step at hstep
  cases hmode : s.mode <;> rw [hmode] at hstep hwell <;> dsimp only at hstep
  case bare => exact h.stepBare hstep
  case comment =>
    split_ifs at hstep
    · exact h.stepBare hstep
    · obtain rfl := Except.ok.inj hstep
      exact h.advance c
  case ampersand =>
    split_ifs at hstep with hangle hand
    · -- The `&` alone is no spelling: it joins the word together with the `>`.
      rw [hangle, stepBare_greater] at hstep
      obtain rfl := Except.ok.inj hstep
      exact ⟨h.word.beforeAngle, trivial, h.finished⟩
    · obtain rfl := Except.ok.inj hstep
      exact (h.endWord.pushWord (.inl (.inr (.inr (.inr rfl))))).advance c
    · exact (h.endWord.pushWord (.inl (.inr (.inr (.inl rfl))))).stepBare hstep
  case bar =>
    split_ifs at hstep
    · obtain rfl := Except.ok.inj hstep
      exact (h.pushWord (.inl (.inr (.inl rfl)))).advance c
    · exact (h.pushWord (.inl (.inl rfl))).stepBare hstep
  case escape =>
    obtain rfl := Except.ok.inj hstep
    exact (h.push (h.word.joins (Segment.joins_escaped c))).advance c
  case single rev =>
    split_ifs at hstep with hquote <;> obtain rfl := Except.ok.inj hstep
    · exact (h.push (h.word.joins (Segment.joins_single hwell))).advance c
    · refine (h.enter (.single (c :: rev)) ?_).advance c
      exact mt List.mem_cons.1 (not_or.2 ⟨Ne.symm hquote, hwell⟩)
  case double rev =>
    split_ifs at hstep with hquote hbackslash <;> obtain rfl := Except.ok.inj hstep
    · exact (h.push (h.word.joins (Segment.joins_double hwell))).advance c
    · exact (h.enter (.quotedEscape s.offset rev) hwell).advance c
    · exact (h.note (.char c) ⟨hquote, hbackslash⟩ hwell).advance c
  case quotedEscape start rev => exact h.stepQuotedEscape hwell hstep
  case firstDigit start rev r =>
    split_ifs at hstep with hdigit
    obtain rfl := Except.ok.inj hstep
    exact (h.enter (.secondDigit start rev r c) ⟨hwell, hdigit⟩).advance c
  case secondDigit start rev r high =>
    split_ifs at hstep with hdigit
    obtain rfl := Except.ok.inj hstep
    exact (h.note (.numeric r high c) ⟨hwell.2, hdigit⟩ hwell.1).advance c

/-- **A scan** makes well-formed segments and words. -/
theorem run {cs : List Char} (h : s.Spells) (hrun : s.run cs = .ok t) : t.Spells :=
  run_invariant (fun s _ => s.Spells) (fun h hstep => h.step hstep) [] h hrun

theorem lastWord? (h : s.Spells) (hlast : s.lastWord? = some u) : u.Spells := by
  unfold State.lastWord? at hlast
  split at hlast
  · obtain rfl := Option.some.inj hlast
    exact h.endWord
  · obtain rfl := Option.some.inj hlast
    exact h.endWord
  · obtain rfl := Option.some.inj hlast
    exact h.endWord.pushWord (.inl (.inr (.inr (.inl rfl))))
  · obtain rfl := Option.some.inj hlast
    exact h.pushWord (.inl (.inl rfl))
  · cases hlast

end Spells

end State

/-- **Words of a command.** Every word is an operator, or segments as a scan reads them. -/
theorem isSpelled_of_tokenize {text : String} {statements : List Statement}
    (h : tokenize text = .complete statements) {s : Statement} (hs : s ∈ statements) {w : Word}
    (hw : w ∈ s.words) : w.IsSpelled := by
  obtain ⟨t, u, hrun, hlast, rfl⟩ := scan_eq_complete_iff.1 h
  have hu : u.Spells := (State.spells_start.run hrun).lastWord? hlast
  exact hu.finished w (State.Spells.hasWord_of_endStatement (List.mem_reverse.1 hs) hw)

/-! ## Reading words back -/

namespace State

variable {s : State} {xs ys : List Segment}

/-- The sources of the segments are read as these. -/
def ReadsSegments (s : State) (xs : List Segment) : Prop :=
  s.run (xs.flatMap Segment.source) =
    .ok ((s.pushAll xs).advanceOver (xs.flatMap Segment.source))

theorem ReadsSegments.append (h : s.ReadsSegments xs)
    (h' : ((s.pushAll xs).advanceOver (xs.flatMap Segment.source)).ReadsSegments ys) :
    s.ReadsSegments (xs ++ ys) := by
  unfold ReadsSegments at h h' ⊢
  rw [List.flatMap_append, run_append, h, advanceOver_append, ← pushAll_pushAll]
  rw [advanceOver_pushAll] at h'
  exact h'

theorem readsSegments_bare {c : Char} (h : s.step c = .ok ((s.push (.bare c)).advance c)) :
    s.ReadsSegments [.bare c] := by
  unfold ReadsSegments
  rw [List.flatMap_singleton]
  exact run_cons_ok h []

theorem readsSegments_of_joins {x : Segment} (hmode : s.mode = .bare) (hx : x.Joins) :
    s.ReadsSegments [x] := by
  have hrun := run_segment hmode hx []
  unfold ReadsSegments
  rw [List.flatMap_singleton]
  rwa [List.append_nil] at hrun

theorem step_hash (hmode : s.mode = .bare) (hword : s.word ≠ []) :
    s.step '#' = .ok ((s.push (.bare '#')).advance '#') := by
  rw [step_of_bare hmode]
  simp [stepBare, hword]

theorem step_ampersand (hmode : s.mode = .bare) (hangle : s.afterAngle = true) :
    s.step '&' = .ok ((s.push (.bare '&')).advance '&') := by
  rw [step_of_bare hmode]
  simp [stepBare, hangle]

theorem step_ampersand_apart (hmode : s.mode = .bare) (hangle : s.afterAngle ≠ true) :
    s.step '&' = .ok ((s.enter .ampersand).advance '&') := by
  rw [step_of_bare hmode]
  simp [stepBare, hangle]

/-- Before a `>` an `&` joins the word together with it. -/
theorem readsSegments_redirection (hmode : s.mode = .bare) :
    s.ReadsSegments [.bare '&', .bare '>'] := by
  by_cases hangle : s.afterAngle = true
  · exact (readsSegments_bare (step_ampersand hmode hangle)).append
      (readsSegments_bare (step_isWordChar rfl (by decide)))
  · have hsecond : ((s.enter .ampersand).advance '&').step '>' =
        .ok ((((s.push (.bare '&')).advance '&').push (.bare '>')).advance '>') :=
      stepBare_greater _
    unfold ReadsSegments
    exact (run_cons_ok (step_ampersand_apart hmode hangle) _).trans (run_cons_ok hsecond [])

/-- **Spelling.** Where no word has begun, the sources of a spelling are read as its segments. -/
theorem readsSegments_of_spelling (h : Spelling xs) (hmode : s.mode = .bare)
    (hword : s.word = []) : s.ReadsSegments xs.reverse := by
  induction h with
  | nil =>
    have hs : s.pushAll [] = s := by
      unfold pushAll
      rw [← hmode]
      rfl
    exact congrArg Except.ok hs.symm
  | joins h hx ih =>
    rw [List.reverse_cons]
    exact ih.append (readsSegments_of_joins (by simp) hx)
  | hash h hne ih =>
    rw [List.reverse_cons]
    exact ih.append (readsSegments_bare (step_hash (by simp) (by simp [hne])))
  | @behindAngle x xs h hx ih =>
    rw [List.reverse_cons]
    refine ih.append (readsSegments_bare (step_ampersand (by simp) ?_))
    exact afterAngle_iff.2 ⟨x, xs, by simp [hword], hx⟩
  | beforeAngle h ih =>
    rw [List.reverse_cons, List.reverse_cons, List.append_assoc]
    exact ih.append (readsSegments_redirection (by simp))

end State

end Runbook.Shell
