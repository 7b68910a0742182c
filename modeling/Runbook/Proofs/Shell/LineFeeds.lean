import Mathlib.Data.List.Induction
import Runbook.Proofs.Shell.Continuation
import Runbook.Proofs.Shell.Layout
import Runbook.Proofs.Shell.Spelling
import Runbook.Proofs.Shell.Unfinished

/-!
# Line feeds in a command

The lines of a command are joined by line feeds. Each of these is read inside quotes: elsewhere an
unfinished text ends in a backslash, which goes, or within an escape, where a line feed is refused
(`QuotesLineFeeds.joinLine`). So no line feed ends a statement, and each is part of a quoted span of
one word (`exists_unbroken`).
-/

namespace Runbook.Shell

/-- A span in quotes. -/
def Segment.IsQuoted : Segment → Prop
  | .single _ | .double _ => True
  | _ => False

/-! ## Escaped characters -/

namespace State

variable {s t u : State} {x y : Segment} {w : Word} {c d : Char} {cs : List Char}

/-- The segment is one of the word that has begun, or of a finished one. -/
def Holds (s : State) (x : Segment) : Prop :=
  x ∈ s.word ∨ ∃ w, s.HasWord w ∧ x ∈ w.segments

theorem holds_push (h : (s.push y).Holds x) : x = y ∨ s.Holds x := by
  rcases h with hx | hx
  · exact (List.mem_cons.1 hx).imp_right .inl
  · exact .inr (.inr hx)

theorem holds_pushWord (h : (s.pushWord w).Holds x) : x ∈ w.segments ∨ s.Holds x := by
  rcases h with hx | ⟨v, hv | hv, hx⟩
  · exact .inr (.inl hx)
  · rcases List.mem_cons.1 hv with rfl | hv
    · exact .inl hx
    · exact .inr (.inr ⟨v, .inl hv, hx⟩)
  · exact .inr (.inr ⟨v, .inr hv, hx⟩)

theorem holds_endWord (h : s.endWord.Holds x) : s.Holds x := by
  by_cases hword : s.word = []
  · rwa [endWord_of_word hword] at h
  · rcases h with hx | ⟨v, hv | hv, hx⟩
    · rw [word_endWord] at hx
      cases hx
    · rw [words_endWord hword] at hv
      rcases List.mem_cons.1 hv with rfl | hv
      · exact .inl (List.mem_reverse.1 hx)
      · exact .inr ⟨v, .inl hv, hx⟩
    · rw [(endWord_same s).2.1] at hv
      exact .inr ⟨v, .inr hv, hx⟩

theorem holds_separate (h : (s.separate c).Holds x) : s.Holds x := by
  rw [separate_eq] at h
  rcases h with hx | ⟨w, hw | ⟨y, hy, hw⟩, hx⟩
  · exact .inl hx
  · cases hw
  · exact .inr ⟨w, Spells.hasWord_of_endStatement hy hw, hx⟩

theorem escaped_of_pushWord {cs : List Char} (h : (s.pushWord (.ofBare cs)).Holds (.escaped d)) :
    s.Holds (.escaped d) := by
  refine (holds_pushWord h).resolve_left fun hmem => ?_
  obtain ⟨c, -, hc⟩ := List.mem_map.1 hmem
  cases hc

theorem escaped_of_push (h : ((s.push x).advance c).Holds (.escaped d)) (hx : x ≠ .escaped d) :
    s.Holds (.escaped d) :=
  (holds_push h).resolve_left (Ne.symm hx)

theorem escaped_of_lastWord? (hlast : s.lastWord? = some u) (h : u.Holds (.escaped d)) :
    s.Holds (.escaped d) := by
  unfold State.lastWord? at hlast
  split at hlast
  · obtain rfl := Option.some.inj hlast
    exact holds_endWord h
  · obtain rfl := Option.some.inj hlast
    exact holds_endWord h
  · obtain rfl := Option.some.inj hlast
    exact holds_endWord (escaped_of_pushWord h)
  · obtain rfl := Option.some.inj hlast
    exact escaped_of_pushWord h
  · cases hlast

theorem escaped_of_stepBare (hstep : s.stepBare c = .ok t) (h : t.Holds (.escaped d)) :
    s.Holds (.escaped d) := by
  unfold State.stepBare at hstep
  split_ifs at hstep <;> obtain rfl := Except.ok.inj hstep
  · exact holds_endWord h
  · exact holds_endWord (holds_separate h)
  · exact holds_endWord (holds_separate h)
  · exact holds_endWord h
  · exact escaped_of_push h nofun
  · exact h
  · exact h
  · exact h
  · exact h
  · exact h
  · exact escaped_of_push h nofun

theorem Quotes.escaped (hquotes : s.Quotes c t) (h : t.Holds (.escaped d)) :
    s.Holds (.escaped d) ∨ d = c ∧ s.mode = .escape := by
  cases hquotes with
  | keeps => exact .inl h
  | finishes x hsource _ =>
    rcases holds_push h with rfl | h
    · have hparts : ['\\'] ++ [d] = s.mode.pending ++ [c] := hsource
      obtain ⟨hpending, hd⟩ := List.append_inj' hparts rfl
      refine .inr ⟨List.singleton_inj.1 hd, ?_⟩
      cases hmode : s.mode <;> simp [hmode, Mode.pending] at hpending ⊢
    · exact .inl h

/-- Only behind a backslash outside quotes an escaped character is read. -/
theorem escaped_of_step (hstep : s.step c = .ok t) (h : t.Holds (.escaped d)) :
    s.Holds (.escaped d) ∨ d = c ∧ s.mode = .escape := by
  cases hlast : s.lastWord? with
  | none => exact (quotes_of_step hstep hlast).escaped h
  | some u =>
    left
    unfold State.step at hstep
    unfold State.lastWord? at hlast
    cases hmode : s.mode <;> rw [hmode] at hstep hlast <;> dsimp only at hstep hlast
    case bare => exact escaped_of_stepBare hstep h
    case comment =>
      split_ifs at hstep
      · exact escaped_of_stepBare hstep h
      · obtain rfl := Except.ok.inj hstep
        exact h
    case ampersand =>
      split_ifs at hstep
      · exact (holds_push (escaped_of_stepBare hstep h)).resolve_left nofun
      · obtain rfl := Except.ok.inj hstep
        exact holds_endWord (escaped_of_pushWord h)
      · exact holds_endWord (escaped_of_pushWord (escaped_of_stepBare hstep h))
    case bar =>
      split_ifs at hstep
      · obtain rfl := Except.ok.inj hstep
        exact escaped_of_pushWord h
      · exact escaped_of_pushWord (escaped_of_stepBare hstep h)
    all_goals cases hlast

/-- An escaped character of a text was read behind a backslash outside quotes. -/
theorem exists_of_escaped (hrun : start.run cs = .ok s) (h : s.Holds (.escaped d)) :
    ∃ before behind u, cs = before ++ d :: behind ∧ start.run before = .ok u ∧
      u.mode = .escape := by
  induction cs using List.reverseRecOn generalizing s with
  | nil =>
    obtain rfl := Except.ok.inj hrun
    rcases h with hd | ⟨w, hw | ⟨x, hx, -⟩, -⟩ <;> contradiction
  | append_singleton read c ih =>
    obtain ⟨v, hread, hstep⟩ := exists_of_run_concat hrun
    rcases escaped_of_step hstep h with h | ⟨rfl, hmode⟩
    · obtain ⟨before, behind, u, rfl, hu⟩ := ih hread h
      exact ⟨before, behind ++ [c], u, by simp, hu⟩
    · exact ⟨read, [], v, rfl, hread, hmode⟩

end State

/-! ## Line feeds inside quotes -/

/-- Every line feed is read inside quotes. -/
def QuotesLineFeeds (cs : List Char) : Prop :=
  ∀ before behind, cs = before ++ '\n' :: behind →
    ∃ s, State.start.run before = .ok s ∧ s.mode.IsQuote

namespace QuotesLineFeeds

variable {cs ds : List Char} {s : State} {text line : String}

theorem of_not_mem (h : '\n' ∉ cs) : QuotesLineFeeds cs := by
  rintro before behind rfl
  exact absurd (List.mem_append_right before List.mem_cons_self) h

theorem of_append (h : QuotesLineFeeds (cs ++ ds)) : QuotesLineFeeds cs := by
  rintro before behind rfl
  exact h before (behind ++ ds) (by simp)

theorem append (h : QuotesLineFeeds cs) (hds : '\n' ∉ ds) : QuotesLineFeeds (cs ++ ds) := by
  intro before behind heq
  rcases List.append_eq_append_iff.1 heq with ⟨more, rfl, hmore⟩ | ⟨more, rfl, hmore⟩
  · rw [hmore] at hds
    exact absurd (List.mem_append_right more List.mem_cons_self) hds
  · cases more with
    | nil =>
      rw [show ds = '\n' :: behind from hmore.symm] at hds
      exact absurd List.mem_cons_self hds
    | cons c more =>
      obtain rfl := (List.cons.inj hmore).1
      exact h before more rfl

/-- A line feed where the scan stands inside quotes. -/
theorem concat (h : QuotesLineFeeds cs) (hrun : State.start.run cs = .ok s)
    (hmode : s.mode.IsQuote) : QuotesLineFeeds (cs ++ ['\n']) := by
  intro before behind heq
  rcases List.append_eq_append_iff.1 heq with ⟨more, rfl, hmore⟩ | ⟨more, rfl, hmore⟩
  · obtain rfl : more = [] := by
      cases more with
      | nil => rfl
      | cons c more => simpa using (List.cons.inj hmore).2
    rw [List.append_nil]
    exact ⟨s, hrun, hmode⟩
  · cases more with
    | nil =>
      rw [List.append_nil] at hrun
      exact ⟨s, hrun, hmode⟩
    | cons c more =>
      obtain rfl := (List.cons.inj hmore).1
      exact h before more rfl

theorem joint (h : QuotesLineFeeds text.toList) (hunfinished : tokenize text = .unfinished)
    (hjoined : ∀ m, tokenize (joinLine text line) ≠ .malformed m) :
    QuotesLineFeeds (joint text).toList := by
  unfold Shell.joint
  split
  · next hlast =>
    obtain ⟨init, hinit⟩ := List.getLast?_eq_some_iff.1 hlast
    rw [hinit] at h
    rw [String.toList_ofList, hinit, List.dropLast_concat]
    exact h.of_append
  · next hlast =>
    obtain ⟨s, hrun, hunclosed⟩ := scan_eq_unfinished_iff.1 hunfinished
    rw [String.toList_append]
    cases hstep : s.step '\n' with
    | ok t =>
      have hmode := State.ne_escape_of_run hrun hlast
      exact h.concat hrun (State.isQuote_of_step_lineFeed hunclosed hmode hstep)
    | error m =>
      refine absurd ?_ (hjoined m)
      rw [joinLine_eq_joint, Shell.joint, if_neg hlast]
      unfold tokenize
      rw [String.toList_append, String.toList_append, scan_eq_malformed_iff, List.append_assoc,
        State.run_append, hrun]
      exact State.run_cons_error hstep _

/-- **Joining.** A line that is joined to an unfinished text adds a line feed inside quotes, or
none. -/
theorem joinLine (h : QuotesLineFeeds text.toList) (hunfinished : tokenize text = .unfinished)
    (hline : '\n' ∉ line.toList) (hjoined : ∀ m, tokenize (joinLine text line) ≠ .malformed m) :
    QuotesLineFeeds (joinLine text line).toList := by
  rw [joinLine_eq_joint, String.toList_append, Text.toList_trimmed]
  exact (h.joint hunfinished hjoined).append (mt Text.mem_of_mem_trim hline)

end QuotesLineFeeds

/-! ## Rows -/

/-- The statements of a command are set apart by nothing but a `;`: it is made up of rows with a `;`
behind each but the last one, and every line feed in them is part of a quoted span of one word. -/
structure Unbroken (text : String) (statements : List Statement) (rows : List Row) (last : Row) :
    Prop where
  characters : text.toList = separated (rows.map fun r => (r, ';')) ++ last.source
  wellFormed : ∀ r ∈ rows ++ [last], r.WellFormed
  ended : ∀ r ∈ rows, r.words ≠ [] ∧ ¬r.EndsInComment
  statements : statements = (rows ++ [last]).filterMap Row.statement?
  lineFeeds : ∀ r ∈ rows ++ [last], ∀ x ∈ r, '\n' ∈ x.source →
    ∃ w, x = .word w ∧ ∀ y ∈ w.segments, '\n' ∈ y.source → y.IsQuoted

section

variable {s : State} {cs : List Char} {text : String} {statements : List Statement} {r : Row}
  {w : Word}

theorem Segment.isQuoted_of_lineFeed {x : Segment} (hx : '\n' ∈ x.source) (hbare : x ≠ .bare '\n')
    (hescaped : x ≠ .escaped '\n') : x.IsQuoted := by
  cases x with
  | bare c =>
    obtain rfl : '\n' = c := List.mem_singleton.1 hx
    exact absurd rfl hbare
  | escaped c =>
    have hc : '\n' = c := by simpa [Segment.source] using hx
    exact absurd (congrArg Segment.escaped hc.symm) hescaped
  | single span => trivial
  | double span => trivial

/-- Where line feeds are read inside quotes only, none separates rows. -/
theorem State.exists_lays_of_quotesLineFeeds (hrun : start.run cs = .ok s)
    (hfeeds : QuotesLineFeeds cs) : ∃ rows, s.Lays cs rows ∧ ∀ x ∈ rows, x.2 = ';' := by
  induction cs using List.reverseRecOn generalizing s with
  | nil =>
    obtain rfl := Except.ok.inj hrun
    exact ⟨[], lays_start, nofun⟩
  | append_singleton read c ih =>
    obtain ⟨u, hread, hstep⟩ := exists_of_run_concat hrun
    obtain ⟨rows, hrows, hall⟩ := ih hread hfeeds.of_append
    obtain ⟨rows', hrows', rfl | ⟨r, v, rfl, hlast⟩⟩ := hrows.exists_step hstep
    · exact ⟨rows', hrows', hall⟩
    · refine ⟨_, hrows', List.forall_mem_append.2 ⟨hall, List.forall_mem_singleton.2 ?_⟩⟩
      rcases (hrows'.wellFormed (r, c) (by simp)).2 with rfl | ⟨hc, -⟩
      · obtain ⟨u', hu', hquote⟩ := hfeeds read [] rfl
        obtain rfl : u = u' := Except.ok.inj (hread.symm.trans hu')
        cases (lastWord?_of_isQuote hquote).symm.trans hlast
      · exact hc

theorem Row.exists_statement (h : w ∈ r.words) : ∃ x, r.statement? = some x ∧ w ∈ x.words :=
  ⟨_, if_neg (List.ne_nil_of_mem h), h⟩

/-- **Line feeds.** A command in which every line feed is read inside quotes has no statement that
ends at one. -/
theorem exists_unbroken (h : tokenize text = .complete statements)
    (hfeeds : QuotesLineFeeds text.toList) : ∃ rows last, Unbroken text statements rows last := by
  obtain ⟨s, u, hrun, hlast, rfl⟩ := scan_eq_complete_iff.1 h
  obtain ⟨rows, hs, hseparators⟩ := State.exists_lays_of_quotesLineFeeds hrun hfeeds
  obtain ⟨last, htext, hwell, hall⟩ := hs.exists_last hlast
  have hrows : (rows.map (·.1)).map (fun r => (r, ';')) = rows := by
    rw [List.map_map]
    refine (List.map_congr_left fun x hx => ?_).trans (List.map_id rows)
    exact Prod.ext rfl (hseparators x hx).symm
  have hescaped : ¬s.Holds (.escaped '\n') := by
    intro hholds
    obtain ⟨before, behind, v, hcs, hv, hmode⟩ := State.exists_of_escaped hrun hholds
    obtain ⟨v', hv', hquote⟩ := hfeeds before behind hcs
    obtain rfl := Except.ok.inj (hv.symm.trans hv')
    rw [hmode] at hquote
    exact hquote
  have hwellFormed : ∀ r ∈ rows.map (·.1) ++ [last], r.WellFormed := by
    refine List.forall_mem_append.2 ⟨?_, List.forall_mem_singleton.2 hwell⟩
    exact List.forall_mem_map.2 fun x hx => (hs.wellFormed x hx).1
  refine ⟨rows.map (·.1), last, ⟨by rw [hrows]; exact htext, hwellFormed, ?_, hall, ?_⟩⟩
  · refine List.forall_mem_map.2 fun x hx => ?_
    have hend := (hs.wellFormed x hx).2
    rw [hseparators x hx] at hend
    exact (hend.resolve_left (by decide)).2
  · intro r hr x hx hmem
    have hpart := (hwellFormed r hr).parts x hx
    cases x with
    | blank c =>
      obtain rfl : '\n' = c := List.mem_singleton.1 hmem
      have hblank : ¬(Part.blank '\n').WellFormed := by simp [Part.WellFormed]
      exact absurd hpart hblank
    | comment body =>
      exact absurd ((List.mem_cons.1 hmem).resolve_left (by decide)) hpart
    | word w =>
      -- Bare it would be a separator; escaped it was read behind a backslash and not in quotes.
      refine ⟨w, rfl, fun y hy hfeed => Segment.isQuoted_of_lineFeed hfeed ?_ ?_⟩
      · rintro rfl
        exact (hpart.2 '\n' hy).2 (.inl rfl)
      · rintro rfl
        obtain ⟨x, hstatement, hw⟩ := Row.exists_statement (r := r) (w := w)
          (List.mem_filterMap.2 ⟨_, hx, rfl⟩)
        have hmem : x ∈ u.endStatement.statements.reverse := by
          rw [hall]
          exact List.mem_filterMap.2 ⟨r, hr, hstatement⟩
        have hword := State.Spells.hasWord_of_endStatement (List.mem_reverse.1 hmem) hw
        exact hescaped (State.escaped_of_lastWord? hlast (.inr ⟨w, hword, hy⟩))

end

end Runbook.Shell
