import Runbook.Proofs.Document.Blanks
import Runbook.Proofs.Document.Parts

/-!
# What is taken for a command

A line is a command when no recogniser finds its form in it (`classify_eq_command_iff`). Where a
line is cut off before a `;`, the part in front may be a lone bracket or a header, which the whole
line is not; for anything else that part is a command when the line is one (`command_or_isLone`).
The line of a call is a command but for calls of a procedure named `include` with arguments
(`classify_eq_command_of_call`).
-/

namespace Runbook.Document

open Text (trim trimStart trimEnd trimmed isBlank)

variable {line first row : String} {cs ds more : List Char}

theorem classify_eq_command_iff : classify line = .command ↔
    includeTarget? line = none ∧ header? line = none ∧ leftBracket? line = none ∧
      rightBracket? line = none ∧ isEmptyLine line = false ∧ isCommentLine line = false ∧
      assignment? line = none := by
  constructor
  · intro h
    unfold classify at h
    split at h
    · cases h
    next hinclude =>
    split at h
    · cases h
    next hheader =>
    split at h
    · cases h
    next hleft =>
    split at h
    · cases h
    next hright =>
    split at h
    · cases h
    next hempty =>
    split at h
    · cases h
    split at h
    · cases h
    next hcomment =>
    split at h
    · cases h
    next hassignment =>
    exact ⟨hinclude, hheader, hleft, hright, by simpa using hempty, by simpa using hcomment,
      hassignment⟩
  · rintro ⟨hinclude, hheader, hleft, hright, hempty, hcomment, hassignment⟩
    have hattribute : isAttributeLine line = false := by
      rw [← Bool.not_eq_true]
      intro hattribute
      cases hcomment.symm.trans (isCommentLine_of_isAttributeLine hattribute)
    unfold classify
    simp [hinclude, hheader, hleft, hright, hempty, hattribute, hcomment, hassignment]

/-! ## Parts of a line -/

theorem mem_trim {c : Char} (h : c ∈ cs) (hc : isBlank c = false) : c ∈ trim cs := by
  obtain ⟨bs, bs', hbs, hbs', hcs⟩ := Text.exists_trim cs
  rw [hcs, List.mem_append, List.mem_append] at h
  rcases h with (h | h) | h
  · exact absurd rfl (Text.ne_of_isBlank (hbs c h) hc)
  · exact h
  · exact absurd rfl (Text.ne_of_isBlank (hbs' c h) hc)

theorem between?_eq_some {opening closing : Char} (h : between? opening closing cs = some ds) :
    cs = opening :: (ds ++ [closing]) := by
  unfold between? at h
  split at h
  · cases h
  · next c rest =>
    split at h
    · next hends =>
      obtain ⟨rfl, hlast⟩ := hends
      obtain rfl := Option.some.inj h
      obtain ⟨init, rfl⟩ := List.getLast?_eq_some_iff.1 hlast
      simp
    · cases h

theorem unwrap_ne_nil {c : Char} (h : c ∈ cs) (hc : c ∉ ['\x22', '\x27', '<', '>']) :
    unwrap cs ≠ [] := by
  have hnone : ∀ opening closing : Char, opening ∈ ['\x22', '\x27', '<', '>'] →
      closing ∈ ['\x22', '\x27', '<', '>'] → between? opening closing cs ≠ some [] := by
    intro opening closing hopening hclosing hbetween
    rw [between?_eq_some hbetween] at h
    rcases List.mem_cons.1 h with rfl | h
    · exact hc hopening
    · exact hc (List.mem_singleton.1 h ▸ hclosing)
  unfold unwrap
  cases hdouble : between? '\x22' '\x22' cs with
  | some ds =>
    rintro rfl
    exact hnone _ _ (by simp) (by simp) hdouble
  | none =>
    cases hsingle : between? '\x27' '\x27' cs with
    | some ds =>
      rintro rfl
      exact hnone _ _ (by simp) (by simp) hsingle
    | none =>
      cases hangle : between? '<' '>' cs with
      | some ds =>
        rintro rfl
        exact hnone _ _ (by simp) (by simp) hangle
      | none => exact List.ne_nil_of_mem h

/-- A line is an include when a blank stands behind the keyword, and further on a character that is
neither blank nor a quote. -/
theorem includeTarget?_ne_none {b c : Char} (htrim : trim line.toList = "include".toList ++ b :: cs)
    (hb : isBlank b = true) (h : c ∈ cs) (hblank : isBlank c = false)
    (hc : c ∉ ['\x22', '\x27', '<', '>']) : includeTarget? line ≠ none := by
  have hmem : c ∈ trim (b :: cs) := mem_trim (List.mem_cons_of_mem b h) hblank
  have htarget : unwrap (trim (b :: cs)) ≠ [] := unwrap_ne_nil hmem hc
  unfold includeTarget?
  rw [htrim, after?_append]
  simp [hb, htarget]

theorem identifier?_append_more {isTail : Char → Bool} {name rest : List Char}
    (h : identifier? isTail cs = some (name, rest)) (hrest : rest ≠ []) (more : List Char) :
    identifier? isTail (cs ++ more) = some (name, rest ++ more) := by
  obtain ⟨c, rest, rfl⟩ := List.exists_cons_of_ne_nil hrest
  have hcs := identifier?_eq_some h
  have hc : isTail c = false := by
    cases cs with
    | nil => cases h
    | cons d cs =>
      rw [identifier?] at h
      split at h
      · obtain ⟨-, hdrop⟩ := Prod.mk.inj (Option.some.inj h)
        have hhead := List.head?_dropWhile_not isTail cs
        rw [hdrop] at hhead
        simpa using hhead
      · cases h
  rw [hcs, List.append_assoc]
  refine identifier?_append (identifier?_of_identifier? h) fun d hd => ?_
  rw [← Option.some.inj hd]
  exact hc

theorem assignment?_ne_none_of_append (h : assignment? row ≠ none)
    (hline : trim line.toList = trim row.toList ++ more) : assignment? line ≠ none := by
  obtain ⟨assigned, hrow⟩ := Option.ne_none_iff_exists'.1 h
  unfold assignment? at hrow ⊢
  simp only [Option.bind_eq_bind, Option.bind_eq_some_iff] at hrow
  obtain ⟨⟨name, rest⟩, hname, value, hvalue, -⟩ := hrow
  have hequals := after?_eq_some hvalue
  have hrest : rest ≠ [] := by
    rintro rfl
    cases hequals
  have hstart : trimStart (rest ++ more) = '=' :: (value ++ more) := by
    obtain ⟨bs, hbs, hsplit⟩ := Text.exists_trimStart rest
    rw [hsplit, hequals, List.append_assoc, Text.trimStart_append_of_blank hbs]
    exact Text.trimStart_eq_self (by rintro d ⟨⟩; decide)
  rw [hline, identifier?_append_more hname hrest more]
  simp [hstart, after?]

/-! ## Rows that a `;` stands behind -/

/-- The row is the start of the line up to a `;`, but for blanks. -/
def Drops (line row : String) : Prop :=
  ∃ bs behind : List Char, (∀ c ∈ bs, isBlank c = true) ∧
    (trimmed line).toList = (trimmed row).toList ++ (bs ++ ';' :: behind)

/-- A bracket or a header, with nothing behind it. -/
def IsLone (row : String) : Prop :=
  (∃ b, leftBracket? row = some b) ∨ (∃ b, rightBracket? row = some b) ∨
    ∃ name b, header? row = some (name, b)

theorem IsLone.ne_command (h : IsLone row) : classify row ≠ .command := by
  intro hrow
  obtain ⟨-, hheader, hleft, hright, -⟩ := classify_eq_command_iff.1 hrow
  rcases h with ⟨b, hb⟩ | ⟨b, hb⟩ | ⟨name, b, hb⟩
  · cases hleft.symm.trans hb
  · cases hright.symm.trans hb
  · cases hheader.symm.trans hb

/-- **Cut lines.** A row that is not blank, and that a `;` stands behind in a command, is a command
as well, or a lone bracket or header. -/
theorem command_or_isLone (hfirst : classify first = .command) (h : Drops first row)
    (hempty : isEmptyLine row = false) : classify row = .command ∨ IsLone row := by
  by_cases hlone : IsLone row
  · exact .inr hlone
  · left
    obtain ⟨hinclude, -, -, -, -, hcomment, hassignment⟩ := classify_eq_command_iff.1 hfirst
    obtain ⟨bs, behind, hbs, hline⟩ := h
    rw [Text.toList_trimmed, Text.toList_trimmed] at hline
    obtain ⟨hleft, hright, hheader⟩ : leftBracket? row = none ∧ rightBracket? row = none ∧
        header? row = none := by
      refine ⟨?_, ?_, ?_⟩ <;> rw [Option.eq_none_iff_forall_ne_some]
      · exact fun b hb => hlone (.inl ⟨b, hb⟩)
      · exact fun b hb => hlone (.inr (.inl ⟨b, hb⟩))
      · exact fun ⟨name, b⟩ hb => hlone (.inr (.inr ⟨name, b, hb⟩))
    refine classify_eq_command_iff.2 ⟨?_, hheader, hleft, hright, hempty, ?_, ?_⟩
    · by_contra hrow
      obtain ⟨target, htarget⟩ := Option.ne_none_iff_exists'.1 hrow
      unfold includeTarget? at htarget
      simp only [Option.bind_eq_bind, Option.bind_eq_some_iff] at htarget
      obtain ⟨rest, hrest, b, hb, htarget⟩ := htarget
      obtain ⟨rest, rfl⟩ := List.head?_eq_some_iff.1 hb
      split at htarget
      · next hblank =>
        rw [after?_eq_some hrest, List.append_assoc, List.cons_append] at hline
        exact includeTarget?_ne_none hline hblank (c := ';') (by simp) (by decide) (by decide)
          hinclude
      · cases htarget
    · rw [← Bool.not_eq_true]
      intro hrow
      have hhead : (trim row.toList).head? = some '#' := by
        rw [Text.head?_trim]
        exact of_decide_eq_true hrow
      have hsharp : isCommentLine first = true := by
        refine decide_eq_true ?_
        rw [← Text.head?_trim, hline, List.head?_append, hhead]
        rfl
      cases hcomment.symm.trans hsharp
    · by_contra hrow
      exact assignment?_ne_none_of_append hrow hline hassignment

/-! ## Lines of calls -/

theorem isNameChar_of_isOptionChar {c : Char} (h : isOptionChar c = true) :
    isNameChar c = true := by
  unfold isOptionChar at h
  unfold isNameChar
  rcases Bool.or_eq_true_iff.1 h with h | h
  · rw [h]
    rfl
  · rw [eq_of_beq h]
    decide

theorem IsProcedureName.not_lone {name : String} (hname : IsProcedureName name) {rest : List Char}
    (hrow : trim row.toList = name.toList ++ rest) :
    leftBracket? row = none ∧ rightBracket? row = none ∧ isEmptyLine row = false ∧
      isCommentLine row = false := by
  obtain ⟨c, tail, hchars, -⟩ := identifier?_self hname
  have hc : Document.isNameChar c = true :=
    hname.isNameChar c (by rw [hchars]; exact List.mem_cons_self)
  rw [hchars, List.cons_append] at hrow
  have hne : c ≠ '#' := by
    rintro rfl
    cases hc
  obtain ⟨hempty, hcomment⟩ := not_skip_of_trim hrow hne
  refine ⟨?_, ?_, hempty, hcomment⟩ <;> rw [Option.eq_none_iff_forall_ne_some]
  · intro b hb
    have hsame := (trim_of_leftBracket? hb).symm.trans hrow
    cases b <;> obtain ⟨rfl, -⟩ := List.cons_eq_cons.1 hsame <;> cases hc
  · intro b hb
    have hsame := (trim_of_rightBracket? hb).symm.trans hrow
    cases b <;> obtain ⟨rfl, -⟩ := List.cons_eq_cons.1 hsame <;> cases hc

/-- Behind the name of a procedure, and blanks, an option does not make an assignment of it. -/
theorem assignment?_eq_none_of_call {name : String} (hname : IsProcedureName name)
    {rest : List Char} (hrow : trim row.toList = name.toList ++ rest)
    (hhead : ∀ c, rest.head? = some c → isBlank c = true)
    (hstart : ∀ c, (trimStart rest).head? = some c → isOptionChar c = true) :
    assignment? row = none := by
  obtain ⟨c, tail, hchars, hc, htail⟩ := identifier?_self hname
  -- the variable's name ends in the procedure's one, or it is the procedure's one
  have hnext : ∀ d, (trimStart ((tail ++ rest).dropWhile isVariableChar)).head? = some d →
      isNameChar d = true := by
    intro d hd
    rw [List.dropWhile_append] at hd
    split at hd
    · have hrest : rest.dropWhile isVariableChar = rest := by
        cases rest with
        | nil => rfl
        | cons e rest =>
          have he := isNameChar_of_isBlank (hhead e rfl)
          refine List.dropWhile_cons_of_neg fun hvariable => ?_
          cases (isNameChar_of_isOptionChar hvariable).symm.trans he
      rw [hrest] at hd
      exact isNameChar_of_isOptionChar (hstart d hd)
    · next hne =>
      obtain ⟨e, es, hes⟩ := List.exists_cons_of_ne_nil fun hnil => hne (List.isEmpty_iff.2 hnil)
      have he : isNameChar e = true := htail e ((List.dropWhile_suffix _).subset (by
        rw [hes]
        exact List.mem_cons_self))
      have hblank : isBlank e = false := by
        rw [← Bool.not_eq_true]
        intro hblank
        cases he.symm.trans (isNameChar_of_isBlank hblank)
      rw [hes, List.cons_append, Text.trimStart_eq_self (by rintro f ⟨⟩; exact hblank)] at hd
      rw [← Option.some.inj hd]
      exact he
  unfold assignment?
  rw [hrow, hchars, List.cons_append, identifier?, if_pos hc]
  show (after? ['='] _).bind _ = none
  cases hvalue : after? ['='] (trimStart ((tail ++ rest).dropWhile isVariableChar)) with
  | none => rfl
  | some value =>
    cases hnext '=' (by rw [after?_eq_some hvalue]; rfl)

/-- **Calls.** The name of a procedure with options behind it is a command, but for `include` with
an option. -/
theorem classify_eq_command_of_call {name : String} (hname : IsProcedureName name)
    {rest : List Char} (hrow : trim row.toList = name.toList ++ rest)
    (hhead : ∀ c, rest.head? = some c → isBlank c = true)
    (hstart : ∀ c, (trimStart rest).head? = some c → isOptionChar c = true)
    (hinclude : name = "include" → rest = []) : classify row = .command := by
  obtain ⟨hleft, hright, hempty, hcomment⟩ := hname.not_lone hrow
  have hends : ∀ c, rest.head? = some c → isNameChar c = false :=
    fun c hc => isNameChar_of_isBlank (hhead c hc)
  refine classify_eq_command_iff.2 ⟨?_, ?_, hleft, hright, hempty, hcomment,
    assignment?_eq_none_of_call hname hrow hhead hstart⟩
  · unfold includeTarget?
    rw [hrow]
    by_cases hname' : name = "include"
    · rw [hinclude hname', hname']
      rfl
    · cases hafter : after? "include".toList (name.toList ++ rest) with
      | none => rfl
      | some behind =>
        have hblank := not_isBlank_of_after?_include hname hends hname' hafter
        cases hbehind : behind.head? with
        | none => simp [hbehind]
        | some c => simp [hbehind, hblank c hbehind]
  · unfold header?
    rw [hrow, identifier?_append hname hends]
    show (after? ['('] (trimStart rest)).bind _ = none
    cases hopen : after? ['('] (trimStart rest) with
    | none => rfl
    | some behind => cases hstart '(' (by rw [after?_eq_some hopen]; rfl)

end Runbook.Document
