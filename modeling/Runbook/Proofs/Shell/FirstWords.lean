import Runbook.Proofs.Shell.Layout

/-!
# How a command begins

A command of one statement that begins with a word is the row of this statement, perhaps with a
separator behind it (`exists_row_of_tokenize`). So the text of the statement begins as the command
does, and between its first two words there are blanks (`exists_gap_of_tokenize`).
-/

namespace Runbook.Shell

variable {text : String} {statements : List Statement}

namespace Row

variable {r : Row} {w : Word} {ws : List Word}

/-- A row begins with blanks and its first word. -/
theorem WellFormed.exists_word (h : r.WellFormed) (hwords : r.words = w :: ws) :
    ∃ gap behind : Row, r = gap ++ .word w :: behind ∧ (∀ x ∈ gap, ∃ c, x = .blank c) ∧
      behind.words = ws ∧ behind.WellFormed ∧
      ∀ y, behind.head? = some y → (Part.word w).MayPrecede y := by
  induction r with
  | nil => cases hwords
  | cons x r ih =>
    have hrest : WellFormed r := ⟨fun y hy => h.parts y (List.mem_cons_of_mem x hy), h.order.tail⟩
    have hnext : ∀ y, r.head? = some y → x.MayPrecede y := by
      intro y hy
      obtain ⟨r', rfl⟩ := List.head?_eq_some_iff.1 hy
      exact h.order.rel
    cases x with
    | blank c =>
      obtain ⟨gap, behind, rfl, hgap, hbehind⟩ := ih hrest hwords
      exact ⟨.blank c :: gap, behind, rfl, List.forall_mem_cons.2 ⟨⟨c, rfl⟩, hgap⟩, hbehind⟩
    | word v =>
      obtain ⟨rfl, rfl⟩ := List.cons_eq_cons.1 (show v :: words r = w :: ws from hwords)
      exact ⟨[], r, rfl, nofun, rfl, hrest, hnext⟩
    | comment body =>
      cases r with
      | nil => cases hwords
      | cons y r => exact (hnext y rfl).elim

end Row

/-- Every statement of a command has a word. -/
theorem words_ne_nil_of_tokenize {s : Statement} (h : tokenize text = .complete statements)
    (hs : s ∈ statements) : s.words ≠ [] := by
  obtain ⟨rows, last, -, -, -, hall⟩ := exists_rows_of_tokenize h
  rw [hall] at hs
  obtain ⟨r, -, hr⟩ := List.mem_filterMap.1 hs
  unfold Row.statement? at hr
  split at hr
  · cases hr
  · next hwords =>
    rw [← Option.some.inj hr]
    exact hwords

/-- A command of one statement that begins with a word is the row of this statement, perhaps with a
separator behind it. -/
theorem exists_row_of_tokenize {s : Statement} (h : tokenize text = .complete [s])
    (hblank : ∀ c, text.toList.head? = some c → Text.isBlank c = false)
    (hcomment : text.toList.head? ≠ some '#') :
    ∃ r : Row, r.WellFormed ∧ r.words = s.words ∧ r.words ≠ [] ∧
      s.text = String.ofList (Text.trim r.source) ∧
      (text.toList = r.source ∨
        ∃ c behind, (c = '\n' ∨ c = ';') ∧ text.toList = r.source ++ c :: behind) := by
  have hrow : ∀ {r : Row} {rows : List Row}, [s] = (r :: rows).filterMap Row.statement? →
      r.words ≠ [] → r.words = s.words ∧ s.text = String.ofList (Text.trim r.source) := by
    intro r rows hall hwords
    rw [List.filterMap_cons_some (by rw [Row.statement?, if_neg hwords])] at hall
    rw [(List.cons_eq_cons.1 hall).1]
    exact ⟨rfl, rfl⟩
  obtain ⟨rows, last, htext, hrows, hlast, hall⟩ := exists_rows_of_tokenize h
  cases rows with
  | nil =>
    have hwords : last.words ≠ [] := by
      intro hnil
      simp [Row.statement?, hnil] at hall
    obtain ⟨hsame, htrim⟩ := hrow hall hwords
    exact ⟨last, hlast, hsame, hwords, htrim, .inl htext⟩
  | cons first rows =>
    obtain ⟨r, c⟩ := first
    obtain ⟨hwell, hend⟩ := hrows _ List.mem_cons_self
    replace htext : text.toList = r.source ++ c :: (separated rows ++ last.source) := by
      rw [htext]
      simp [separated]
    have hwords : r.words ≠ [] := by
      intro hnil
      obtain rfl : c = '\n' := hend.resolve_right fun hsemicolon => hsemicolon.2.1 hnil
      cases r with
      | nil => cases hblank '\n' (by rw [htext]; rfl)
      | cons x r =>
        have hx := hwell.parts x List.mem_cons_self
        cases x with
        | blank d =>
          have hd := hblank d (by rw [htext]; rfl)
          rcases hx with rfl | rfl | rfl <;> cases hd
        | word w => cases hnil
        | comment body => exact hcomment (by rw [htext]; rfl)
    obtain ⟨hsame, htrim⟩ := hrow hall hwords
    exact ⟨r, hwell, hsame, hwords, htrim, .inr ⟨c, _, hend.imp_right And.left, htext⟩⟩

theorem Row.forall_mem_source {gap behind : Row} (h : Row.WellFormed (gap ++ behind))
    (hgap : ∀ x ∈ gap, ∃ c, x = .blank c) : ∀ c ∈ gap.source, c = ' ' ∨ c = '\t' ∨ c = '\r' := by
  intro c hc
  obtain ⟨x, hx, hmem⟩ := List.mem_flatMap.1 hc
  obtain ⟨d, rfl⟩ := hgap x hx
  obtain rfl := List.mem_singleton.1 hmem
  exact h.parts (.blank c) (List.mem_append_left behind hx)

/-- Between the first two words of a command there are blanks, unless one of them is an operator. -/
theorem exists_gap_of_tokenize {s : Statement} {w v : Word} {ws : List Word}
    (h : tokenize text = .complete [s])
    (hblank : ∀ c, text.toList.head? = some c → Text.isBlank c = false)
    (hcomment : text.toList.head? ≠ some '#') (hwords : s.words = w :: v :: ws)
    (hw : ¬w.IsOperator) (hv : ¬v.IsOperator) :
    ∃ b bs rest, (∀ c ∈ b :: bs, c = ' ' ∨ c = '\t' ∨ c = '\r') ∧
      text.toList = w.source ++ b :: (bs ++ (v.source ++ rest)) := by
  obtain ⟨r, hwell, hsame, -, -, htext⟩ := exists_row_of_tokenize h hblank hcomment
  obtain ⟨gap, behind, rfl, hgap, hbehind, hrest, hnext⟩ := hwell.exists_word (hsame.trans hwords)
  obtain ⟨more, htext⟩ : ∃ more, text.toList =
      gap.source ++ (w.source ++ (behind.source ++ more)) := by
    rcases htext with htext | ⟨d, more, -, htext⟩ <;> rw [htext]
    · exact ⟨[], by simp [Row.source, Part.source]⟩
    · exact ⟨d :: more, by simp [Row.source, Part.source]⟩
  obtain ⟨gap', last, rfl, hgap', -⟩ := hrest.exists_word hbehind
  have hnone : gap.source = [] := by
    cases hsource : gap.source with
    | nil => rfl
    | cons c cs =>
      have hc := hblank c (by rw [htext, hsource]; rfl)
      rcases Row.forall_mem_source hwell hgap c (by rw [hsource]; exact List.mem_cons_self) with
        rfl | rfl | rfl <;> cases hc
  cases gap' with
  | nil => exact absurd (hnext (.word v) rfl) (not_or.2 ⟨hw, hv⟩)
  | cons x gap' =>
    obtain ⟨b, rfl⟩ := hgap' x List.mem_cons_self
    refine ⟨b, Row.source gap', last.source ++ more, Row.forall_mem_source hrest hgap', ?_⟩
    rw [htext, hnone]
    simp [Row.source, Part.source]

/-- The text of the only statement begins with the first character of the command. -/
theorem head?_text_of_tokenize {s : Statement} {c : Char} (h : tokenize text = .complete [s])
    (hhead : text.toList.head? = some c) (hblank : Text.isBlank c = false) (hc : c ≠ '#') :
    s.text.toList.head? = some c := by
  obtain ⟨r, hwell, -, hwords, hs, htext⟩ := exists_row_of_tokenize h
    (fun d hd => by rwa [← Option.some.inj (hhead.symm.trans hd)])
    (fun hcomment => hc (Option.some.inj (hhead.symm.trans hcomment)))
  obtain ⟨w, ws, hcons⟩ := List.exists_cons_of_ne_nil hwords
  obtain ⟨gap, behind, rfl, -⟩ := hwell.exists_word hcons
  obtain ⟨⟨d, hd, -⟩, -⟩ := hwell.parts (.word w) (by simp)
  have hsource : (Row.source (gap ++ .word w :: behind)).head? = some c := by
    have hne : Row.source (gap ++ .word w :: behind) ≠ [] := by
      intro hnil
      have hword := List.flatMap_eq_nil_iff.1 hnil (.word w) (by simp)
      rw [show w.source = [] from hword] at hd
      cases hd
    rcases htext with htext | ⟨_, _, -, htext⟩
    · rwa [← htext]
    · rwa [htext, List.head?_append_of_ne_nil _ hne] at hhead
  rw [hs, String.toList_ofList, Text.head?_trim, Text.trimStart_eq_self, hsource]
  rw [hsource]
  rintro d ⟨⟩
  exact hblank

end Runbook.Shell
