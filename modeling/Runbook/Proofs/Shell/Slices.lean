import Runbook.Proofs.Shell.Outcomes
import Runbook.Proofs.Shell.Sources
import Runbook.Proofs.Text.Trim

/-!
# Statements on their own

A statement is gathered from the characters between two separators, and a scan that starts with
these reads the same words (`State.Sliced`). The text of the statement is what trimming leaves of
them. Trimming knows more blanks than those that separate words, and an escaped blank belongs to a
word as well; where it takes nothing from a word, and only there, the text is read as the statement
again (`tokenize_text_iff`).
-/

namespace Runbook.Shell

namespace State

variable {s t u v : State} {c : Char} {cs : List Char} {ws : List Word}

/-! ## Blanks at the ends -/

theorem Gathers.alike_start (h : s.Gathers cs t) (hs : s.Alike start)
    (hblank : ∀ c ∈ cs, Text.isBlank c = true)
    (hhead : ∀ c, t.source.head? = some c → Text.isBlank c = false) : t.Alike start := by
  induction h with
  | nil => exact hs
  | @cons s t u c cs hending hstep hrest ih =>
    obtain ⟨hc, hcs⟩ := List.forall_mem_cons.1 hblank
    have hmode : s.mode = .bare := (Mode.eq_of_placeless hs.mode.symm rfl).symm
    have htidy : s.IsTidy := fun _ => hs.word
    have htakes := takes_of_step hstep htidy hending
    cases htakes with
    | word hsource htidy =>
      have hnone : s.source = [] := by
        simp [source, written, hs.word, hs.words, hmode, start, Mode.pending]
      obtain ⟨behind, hbehind⟩ := hrest.prefix_source htidy
      rw [hsource, hnone] at hbehind
      have hnot := hhead c (by rw [← hbehind]; rfl)
      exact absurd rfl (Text.ne_of_isBlank hc hnot)
    | gap v m hv ht hm =>
      subst ht
      rw [lastWord?, hmode] at hv
      obtain rfl := Option.some.inj hv
      rcases hm with ⟨rfl, -⟩ | ⟨-, hcomment | rfl⟩
      · refine ih ⟨rfl, word_endWord s, ?_⟩ hcs hhead
        show s.endWord.words = []
        rw [endWord_of_word hs.word]
        exact hs.words
      · cases hmode.symm.trans hcomment
      · cases hc

theorem Gathers.exists_lastWord? (h : s.Gathers cs t) (hs : s.IsTidy)
    (hblank : ∀ c ∈ cs, Text.isBlank c = true) (hlast : t.lastWord? = some v)
    (hv : ∀ c, v.written.getLast? = some c → Text.isBlank c = false) :
    ∃ u, s.lastWord? = some u ∧ u.words = v.words := by
  induction h with
  | nil => exact ⟨v, hlast, rfl⟩
  | @cons s t u c cs hending hstep hrest ih =>
    obtain ⟨hc, hcs⟩ := List.forall_mem_cons.1 hblank
    have htakes := takes_of_step hstep hs hending
    obtain ⟨w, hw, hwords⟩ := ih (htakes.isTidy hs) hcs hlast
    have hwritten : w.written = v.written := by
      obtain ⟨hword, -⟩ := lastWord?_finished (htakes.isTidy hs) hw
      obtain ⟨hword', -⟩ := lastWord?_finished (hrest.isTidy (htakes.isTidy hs)) hlast
      rw [written_of_word hword, written_of_word hword', hwords]
    have hsource := (lastWord?_finished (htakes.isTidy hs) hw).2
    cases htakes with
    | word hjoins _ =>
      have hnot := hv c (by rw [← hwritten, hsource, hjoins, List.getLast?_concat])
      exact absurd rfl (Text.ne_of_isBlank hc hnot)
    | gap u' m hu' ht hm =>
      subst ht
      have hm' : m = .bare ∨ m = .comment := hm.imp And.left And.left
      rw [lastWord?_gap (lastWord?_finished hs hu').1 hm'] at hw
      obtain rfl := Option.some.inj hw
      exact ⟨u', hu', hwords⟩

/-! ## Characters that are read as one statement -/

/-- A scan of the characters from the start gathers these words into one statement. -/
def Yields (cs : List Char) (ws : List Word) : Prop :=
  ∃ t u, start.Gathers cs t ∧ t.lastWord? = some u ∧ u.words = ws.reverse

theorem isTidy_start : start.IsTidy :=
  fun _ => rfl

theorem source_of_yields (ht : start.Gathers cs t) (hu : t.lastWord? = some u)
    (hwords : u.words = ws.reverse) : u.written = ws.flatMap Word.source ∧
      t.source = ws.flatMap Word.source := by
  obtain ⟨hword, hwritten⟩ := lastWord?_finished (ht.isTidy isTidy_start) hu
  have hall : u.written = ws.flatMap Word.source := by
    rw [written_of_word hword, hwords, List.reverse_reverse]
  exact ⟨hall, hwritten.symm.trans hall⟩

theorem Yields.scan (h : Yields cs ws) (hws : ws ≠ []) :
    scan cs = .complete [⟨String.ofList (Text.trim cs), ws⟩] := by
  obtain ⟨t, u, ht, hu, hwords⟩ := h
  obtain ⟨htext, hstatements, -⟩ := lastWord?_same hu
  rw [ht.same.1] at htext
  rw [ht.same.2] at hstatements
  refine scan_eq_complete_iff.2 ⟨t, u, ht.run, hu, ?_⟩
  unfold endStatement
  rw [if_neg (by simpa [hwords] using hws), hwords, htext, hstatements]
  simp [start]

/-- The characters end in a comment. -/
def EndsInComment (cs : List Char) : Prop :=
  ∃ t, start.run cs = .ok t ∧ t.mode = .comment

instance (cs : List Char) : Decidable (EndsInComment cs) :=
  match h : start.run cs with
  | .ok t =>
    decidable_of_iff (t.mode = .comment)
      ⟨fun hmode => ⟨t, h, hmode⟩, fun ⟨_, ht, hmode⟩ => Except.ok.inj (h.symm.trans ht) ▸ hmode⟩
  | .error _ => isFalse fun ⟨_, ht, _⟩ => nomatch h.symm.trans ht

/-- Words that trimming takes nothing from: they do not begin with a blank, and do not end with one,
unless a comment stands behind them. -/
structure Intact (cs : List Char) (ws : List Word) : Prop where
  begins : ∀ c, (ws.flatMap Word.source).head? = some c → Text.isBlank c = false
  ends : EndsInComment cs ∨
    ∀ c, (ws.flatMap Word.source).getLast? = some c → Text.isBlank c = false

/-- **Trimming.** Without the blanks around them characters yield the same words, when trimming
takes nothing from these. -/
theorem Yields.trim (h : Yields cs ws) (hintact : Intact (Text.trim cs) ws) :
    Yields (Text.trim cs) ws := by
  obtain ⟨t, v, ht, hv, hwords⟩ := h
  obtain ⟨hwritten, hsource⟩ := source_of_yields ht hv hwords
  obtain ⟨bs, bs', hbs, hbs', hcs⟩ := Text.exists_trim cs
  rw [hcs] at ht
  obtain ⟨s₂, hs₂, hbehind⟩ := ht.exists_of_append
  obtain ⟨s₁, hbefore, hmiddle⟩ := hs₂.exists_of_append
  have htidy₁ := hbefore.isTidy isTidy_start
  have htidy₂ := hmiddle.isTidy htidy₁
  have hstart : s₁.Alike start := by
    refine hbefore.alike_start ⟨rfl, rfl, rfl⟩ hbs fun c hc => hintact.begins c ?_
    obtain ⟨rest, hrest⟩ := (hmiddle.prefix_source htidy₁).trans (hbehind.prefix_source htidy₂)
    rw [← hsource, ← hrest, List.head?_append, hc]
    rfl
  obtain ⟨t', ht', hst⟩ := hmiddle.exists_alike hstart
  have hlast : ∃ u, s₂.lastWord? = some u ∧ u.words = v.words := by
    rcases hintact.ends with ⟨t'', hrun, hcomment⟩ | hends
    · obtain rfl := Except.ok.inj (ht'.run.symm.trans hrun)
      have hmode : s₂.mode = .comment :=
        (Mode.eq_of_placeless hst.mode.symm (by rw [hcomment]; rfl)).symm.trans hcomment
      obtain ⟨u, hu, hvu⟩ := (hbehind.alike_comment hmode).exists_lastWord? hv
      exact ⟨u, hu, hvu.words.symm⟩
    · exact hbehind.exists_lastWord? htidy₂ hbs' hv (by rwa [hwritten])
  obtain ⟨u, hu, huwords⟩ := hlast
  obtain ⟨u', hu', hsame⟩ := hst.exists_lastWord? hu
  exact ⟨t', u', ht', hu', by rw [← hsame.words, huwords, hwords]⟩

-- The tests on the two ends are computed on the options: a quantifier over all characters is
-- decidable too, by trying each of them.
instance (cs : List Char) (ws : List Word) : Decidable (Intact cs ws) :=
  decidable_of_iff ((ws.flatMap Word.source).head?.all (Text.isBlank · = false) = true ∧
      (EndsInComment cs ∨ (ws.flatMap Word.source).getLast?.all (Text.isBlank · = false) = true))
    (by
      simp only [Option.all_eq_true, decide_eq_true_eq]
      exact ⟨fun h => ⟨h.1, h.2⟩, fun h => ⟨h.begins, h.ends⟩⟩)

/-- The first character that is not blank begins the first word. -/
theorem begins_of_yields (ht : start.Gathers (c :: cs) t) (hu : t.lastWord? = some u)
    (hc : Text.isBlank c = false) (hwords : u.words ≠ []) : t.source.head? = some c := by
  cases ht with
  | cons hending hstep hrest =>
    cases takes_of_step hstep isTidy_start hending with
    | word hsource htidy =>
      obtain ⟨rest, hall⟩ := hrest.prefix_source htidy
      rw [← hall, hsource]
      rfl
    | gap v m hv ht hm =>
      obtain rfl : start = v := Option.some.inj hv
      subst ht
      rcases hm with ⟨-, rfl | rfl | rfl⟩ | ⟨rfl, -⟩
      · cases hc
      · cases hc
      · cases hc
      · -- a comment from the start on leaves no word
        obtain ⟨u', hu', hsame⟩ := (hrest.alike_comment rfl).exists_lastWord? hu
        rw [lastWord?_gap rfl (.inr rfl)] at hu'
        obtain rfl := Option.some.inj hu'
        exact absurd hsame.words hwords

/-- The last character that is not blank ends the last word or is in a comment. -/
theorem ends_of_yields (ht : start.Gathers (cs ++ [c]) t) (hc : Text.isBlank c = false) :
    t.mode = .comment ∨ t.source.getLast? = some c := by
  obtain ⟨s, hs, hlast⟩ := ht.exists_of_append
  cases hlast with
  | cons hending hstep hrest =>
    cases hrest
    cases takes_of_step hstep (hs.isTidy isTidy_start) hending with
    | word hsource _ => exact .inr (by rw [hsource, List.getLast?_concat])
    | gap v m hv ht hm =>
      subst ht
      rcases hm with ⟨-, rfl | rfl | rfl⟩ | ⟨rfl, -⟩
      · cases hc
      · cases hc
      · cases hc
      · exact .inl rfl

/-- Trimming has taken nothing from the words of a trimmed text. -/
theorem Yields.intact (h : Yields cs ws) (hws : ws ≠ []) (htrim : Text.trim cs = cs) :
    Intact cs ws := by
  obtain ⟨t, u, ht, hu, hwords⟩ := h
  obtain ⟨-, hsource⟩ := source_of_yields ht hu hwords
  have hne : u.words ≠ [] := by simpa [hwords] using hws
  rcases List.eq_nil_or_concat cs with rfl | ⟨before, e, hcs⟩
  · cases ht
    cases hu
    exact absurd rfl hne
  · refine ⟨fun c hc => ?_, ?_⟩
    · cases cs with
      | nil => simp at hcs
      | cons d cs =>
        have hd : Text.isBlank d = false := Text.head?_trim_not_blank (by rw [htrim]; rfl)
        rw [← hsource, begins_of_yields ht hu hd hne] at hc
        obtain rfl := Option.some.inj hc
        exact hd
    · rw [List.concat_eq_append] at hcs
      have he : Text.isBlank e = false :=
        Text.getLast?_trim_not_blank (by rw [htrim, hcs, List.getLast?_concat])
      rw [hcs] at ht
      rcases ends_of_yields ht he with hcomment | hlast
      · rw [hcs]
        exact .inl ⟨t, ht.run, hcomment⟩
      · refine .inr fun c hc => ?_
        rw [← hsource, hlast] at hc
        obtain rfl := Option.some.inj hc
        exact he

/-! ## Slices -/

/-- A statement that stands for characters without a separator. -/
def IsSlice (read : List Char) (x : Statement) : Prop :=
  x.words ≠ [] ∧ ∃ cs, cs <:+: read ∧ x.text = String.ofList (Text.trim cs) ∧ Yields cs x.words

theorem IsSlice.mono {read : List Char} {x : Statement} (h : IsSlice cs x) (hread : cs <:+: read) :
    IsSlice read x := by
  obtain ⟨hwords, ds, hds, htext, hyields⟩ := h
  exact ⟨hwords, ds, hds.trans hread, htext, hyields⟩

/-- What was read ends in the text of the current statement, which is gathered into its words, and
the finished statements are slices of it. -/
structure Sliced (s : State) (read : List Char) : Prop where
  reads : s.text.reverse <:+ read
  current : ∃ t, start.Gathers s.text.reverse t ∧ s.Alike t
  finished : ∀ x ∈ s.statements, IsSlice read x

variable {read : List Char}

theorem sliced_start : start.Sliced [] :=
  ⟨List.suffix_rfl, ⟨start, .nil start, rfl, rfl, rfl⟩, fun _ hx => absurd hx List.not_mem_nil⟩

theorem Sliced.isTidy (h : s.Sliced read) : s.IsTidy := by
  obtain ⟨t, ht, hst⟩ := h.current
  intro hmode
  have ht' : s.mode = t.mode :=
    Mode.eq_of_placeless hst.mode (by rcases hmode with hmode | hmode <;> rw [hmode] <;> rfl)
  exact hst.word.trans (ht.isTidy isTidy_start (ht' ▸ hmode))

theorem Sliced.endStatement (h : s.Sliced read) (hu : s.lastWord? = some u) :
    ∀ x ∈ u.endStatement.statements, IsSlice read x := by
  obtain ⟨htext, hstatements, -⟩ := lastWord?_same hu
  unfold State.endStatement
  split
  · rw [hstatements]
    exact h.finished
  · next hwords =>
    obtain ⟨t, ht, hst⟩ := h.current
    obtain ⟨u', hu', hsame⟩ := hst.exists_lastWord? hu
    refine List.forall_mem_cons.2 ⟨⟨by simpa using hwords, s.text.reverse, h.reads.isInfix, ?_,
      t, u', ht, hu', ?_⟩, by rw [hstatements]; exact h.finished⟩
    · rw [htext]
    · rw [List.reverse_reverse, hsame.words]

theorem Sliced.step (h : s.Sliced read) (hstep : s.step c = .ok t) : t.Sliced (read ++ [c]) := by
  have hgrows {x : Statement} (hx : IsSlice read x) : IsSlice (read ++ [c]) x :=
    hx.mono (List.prefix_append read [c]).isInfix
  cases hending : s.ending? c with
  | none =>
    cases consumes_of_step hstep with
    | separates u hu => cases hending.symm.trans hu
    | joins htext hstatements =>
      obtain ⟨s', hs', hsame⟩ := h.current
      obtain ⟨t', ht', htt'⟩ := hsame.exists_step hstep
      refine ⟨?_, ⟨t', ?_, htt'⟩, by rw [hstatements]; exact fun x hx => hgrows (h.finished x hx)⟩
      · rw [htext, List.reverse_cons]
        exact List.suffix_append_self_iff.2 h.reads
      · rw [htext, List.reverse_cons]
        exact hs'.snoc (hsame.ending?_eq_none hending) ht'
  | some u =>
    rw [step_of_ending? hending] at hstep
    split_ifs at hstep
    obtain rfl := Except.ok.inj hstep
    unfold ending? at hending
    split_ifs at hending
    obtain ⟨v, hv, rfl⟩ := Option.map_eq_some_iff.1 hending
    obtain ⟨hword, -⟩ := lastWord?_finished h.isTidy hv
    rw [endWord_of_word hword, separate_eq]
    exact ⟨List.nil_suffix, ⟨start, .nil start, rfl, hword, rfl⟩,
      fun x hx => hgrows (h.endStatement hv x hx)⟩

theorem Sliced.run {ds : List Char} (h : s.Sliced read) (hrun : s.run ds = .ok t) :
    t.Sliced (read ++ ds) :=
  run_invariant Sliced (fun h hstep => h.step hstep) read h hrun

end State

section Texts

variable {line text : String} {statements : List Statement} {s : Statement}

/-- Every statement of a command is a slice of it. -/
theorem isSlice_of_tokenize (h : tokenize text = .complete statements) :
    ∀ x ∈ statements, State.IsSlice text.toList x := by
  obtain ⟨s, u, hrun, hlast, rfl⟩ := scan_eq_complete_iff.1 h
  intro x hx
  exact (State.sliced_start.run hrun).endStatement hlast x (List.mem_reverse.1 hx)

/-- **Texts of statements.** The statements of a command have trimmed texts. -/
theorem trimmed_of_tokenize (h : tokenize text = .complete statements) :
    ∀ x ∈ statements, Text.trimmed x.text = x.text := by
  intro x hx
  obtain ⟨-, cs, -, htext, -⟩ := isSlice_of_tokenize h x hx
  rw [htext]
  unfold Text.trimmed
  rw [String.toList_ofList, Text.trim_trim]

/-- The text of a statement stands in the command. -/
theorem isInfix_of_tokenize (h : tokenize text = .complete statements) :
    ∀ x ∈ statements, x.text.toList <:+: text.toList := by
  intro x hx
  obtain ⟨-, cs, hcs, htext, -⟩ := isSlice_of_tokenize h x hx
  rw [htext, String.toList_ofList]
  exact (Text.trim_isInfix cs).trans hcs

/-- A statement whose words have lost nothing to the trimming of its text. -/
def Statement.IsIntact (s : Statement) : Prop :=
  State.Intact s.text.toList s.words

instance (s : Statement) : Decidable s.IsIntact :=
  inferInstanceAs (Decidable (State.Intact _ _))

/-- **Statements on their own.** The text of a statement is read as this one statement exactly when
the statement is intact. -/
theorem tokenize_text_iff (h : tokenize line = .complete statements) (hs : s ∈ statements) :
    tokenize s.text = .complete [s] ↔ s.IsIntact := by
  constructor
  · intro hself
    obtain ⟨hwords, cs, hcs, htext, hyields⟩ :=
      isSlice_of_tokenize hself s List.mem_cons_self
    have htrim : s.text.toList = Text.trim cs := by rw [htext, String.toList_ofList]
    have hwhole : Text.trim cs = cs :=
      (Text.trim_isInfix cs).eq_of_length_le (by rw [← htrim]; exact hcs.length_le)
    unfold Statement.IsIntact
    rw [htrim, hwhole]
    exact hyields.intact hwords hwhole
  · intro hintact
    obtain ⟨hwords, cs, -, htext, hyields⟩ := isSlice_of_tokenize h s hs
    have htrim : s.text.toList = Text.trim cs := by rw [htext, String.toList_ofList]
    unfold Statement.IsIntact at hintact
    rw [htrim] at hintact
    have hscan := (hyields.trim hintact).scan hwords
    rw [Text.trim_trim, ← htext] at hscan
    unfold tokenize
    rw [htrim]
    exact hscan

end Texts

end Runbook.Shell
