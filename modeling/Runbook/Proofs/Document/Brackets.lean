import Runbook.Proofs.Document.Command
import Runbook.Proofs.Document.Forest

/-!
# Well-nested documents

A document without headers and includes, whose commands are complete on their lines, loads exactly
when its brackets are well nested (`loadText_brackets`). The loader is compared with a scan that
keeps the brackets still open and stops at the first fault (`fault?`): each line takes both the same
way (`State.Scanning`). The scan in turn finds no fault exactly in well-nested words
(`fault?_eq_none_iff`).
-/

namespace Runbook.Document

/-! ## Words of brackets -/

/-- A bracket that stands alone on a line. -/
inductive Mark where
  | opening (b : Bracket)
  | closing (b : Bracket)
  deriving DecidableEq, Repr

/-- The bracket that a line is. -/
def mark? (line : String) : Option Mark :=
  match leftBracket? line with
  | some b => some (.opening b)
  | none => (rightBracket? line).map .closing

/-- Brackets of which each one that opens is closed by one of its kind, and the word between the two
is well-nested. -/
inductive WellNested : List Mark → Prop
  | nil : WellNested []
  | nest (b : Bracket) {u v : List Mark} (inside : WellNested u) (behind : WellNested v) :
    WellNested (.opening b :: (u ++ .closing b :: v))

/-- Brackets that close those of the list in turn, with well-nested words around. -/
inductive Unwinds : List Bracket → List Mark → Prop
  | done {w : List Mark} (h : WellNested w) : Unwinds [] w
  | close (b : Bracket) {stack : List Bracket} {u v : List Mark} (h : WellNested u)
    (hrest : Unwinds stack v) : Unwinds (b :: stack) (u ++ .closing b :: v)

section Words

variable {b : Bracket} {stack : List Bracket} {w : List Mark}

theorem wellNested_iff_unwinds : WellNested w ↔ Unwinds [] w := by
  constructor
  · exact .done
  · rintro ⟨h⟩
    exact h

theorem unwinds_nil_iff : Unwinds stack [] ↔ stack = [] := by
  constructor
  · intro h
    generalize hw : ([] : List Mark) = w at h
    cases h with
    | done => rfl
    | close b h hrest => simp at hw
  · rintro rfl
    exact .done .nil

/-- A bracket that opens is the next one to be closed. -/
theorem unwinds_opening_iff :
    Unwinds stack (.opening b :: w) ↔ Unwinds (b :: stack) w := by
  constructor
  · intro h
    generalize hw : Mark.opening b :: w = w' at h
    cases h with
    | done h =>
      cases h with
      | nil => cases hw
      | nest b' inside behind =>
        obtain ⟨hb, rfl⟩ := List.cons_eq_cons.1 hw
        obtain rfl := Mark.opening.inj hb
        exact .close b inside (.done behind)
    | close b' h hrest =>
      cases h with
      | nil => cases hw
      | nest b'' inside behind =>
        rw [List.cons_append, List.append_assoc, List.cons_append] at hw
        obtain ⟨hb, rfl⟩ := List.cons_eq_cons.1 hw
        obtain rfl := Mark.opening.inj hb
        exact .close b inside (.close b' behind hrest)
  · intro h
    generalize hstack : b :: stack = stack' at h
    cases h with
    | done => cases hstack
    | close b' inside hrest =>
      obtain ⟨rfl, rfl⟩ := List.cons_eq_cons.1 hstack
      cases hrest with
      | done behind => exact .done (.nest b inside behind)
      | close b' behind hrest =>
        have hword := Unwinds.close b' (.nest b inside behind) hrest
        rw [List.cons_append, List.append_assoc, List.cons_append] at hword
        exact hword

/-- A bracket that closes has the kind of the last one open. -/
theorem unwinds_closing_iff :
    Unwinds stack (.closing b :: w) ↔ ∃ stack', stack = b :: stack' ∧ Unwinds stack' w := by
  constructor
  · intro h
    generalize hw : Mark.closing b :: w = w' at h
    cases h with
    | done h => cases h <;> cases hw
    | close b' h hrest =>
      cases h with
      | nil =>
        obtain ⟨hb, rfl⟩ := List.cons_eq_cons.1 hw
        obtain rfl := Mark.closing.inj hb
        exact ⟨_, rfl, hrest⟩
      | nest => cases hw
  · rintro ⟨stack', rfl, h⟩
    exact .close b .nil h

end Words

/-! ## The scan -/

/-- The first fault of some lines, of which the first one is line `n + 1`, when some brackets are
open, the last one first. -/
def fault? (file : String) (n : Nat) : List Bracket → List String → Option LoadError
  | [], [] => none
  | b :: _, [] => some (.missingRightBracket ⟨file, n⟩ b)
  | stack, line :: lines =>
    match mark? line, stack with
    | none, stack => fault? file (n + 1) stack lines
    | some (.opening b), stack => fault? file (n + 1) (b :: stack) lines
    | some (.closing b), [] => some (.unmatchedRightBracket ⟨file, n + 1⟩ b)
    | some (.closing b), expected :: stack =>
      if b = expected then fault? file (n + 1) stack lines
      else some (.mismatchedBracket ⟨file, n + 1⟩ b expected)

/-- The scan finds no fault exactly where the open brackets are closed in turn. -/
theorem fault?_eq_none_iff {file : String} {n : Nat} {stack : List Bracket} {lines : List String} :
    fault? file n stack lines = none ↔ Unwinds stack (lines.filterMap mark?) := by
  fun_induction fault? file n stack lines with
  | case1 => simp [unwinds_nil_iff]
  | case2 => simp [unwinds_nil_iff]
  | case3 n stack line lines hmark ih => rw [ih, List.filterMap_cons_none hmark]
  | case4 n stack line lines b hmark ih =>
    rw [ih, List.filterMap_cons_some hmark, unwinds_opening_iff]
  | case5 n line lines b hmark =>
    rw [List.filterMap_cons_some hmark, unwinds_closing_iff]
    simp
  | case6 n line lines stack b hmark ih =>
    rw [ih, List.filterMap_cons_some hmark, unwinds_closing_iff]
    simp
  | case7 n line lines b expected stack hmark hne =>
    rw [List.filterMap_cons_some hmark, unwinds_closing_iff]
    simp [Ne.symm hne]

/-! ## Plain lines -/

/-- A blank line, a comment, a lone bracket, or a line that is a complete command by itself and no
include or header. -/
def IsPlain (line : String) : Prop :=
  isEmptyLine line = true ∨ isCommentLine line = true ∨ mark? line ≠ none ∨
    ((∃ statements, Shell.tokenize (Text.trimmed line) = .complete statements) ∧
      includeTarget? line = none ∧ header? line = none)

instance (x : Shell.Outcome) : Decidable (∃ statements, x = .complete statements) :=
  match x with
  | .complete statements => isTrue ⟨statements, rfl⟩
  | .unfinished => isFalse (by simp)
  | .malformed _ => isFalse (by simp)

instance (line : String) : Decidable (IsPlain line) :=
  inferInstanceAs (Decidable (_ ∨ _ ∨ _ ∨ _))

section Lines

variable {line : String} {b : Bracket}

theorem mark?_eq_none_iff :
    mark? line = none ↔ leftBracket? line = none ∧ rightBracket? line = none := by
  unfold mark?
  cases leftBracket? line <;> simp

theorem mark?_opening_iff : mark? line = some (.opening b) ↔ leftBracket? line = some b := by
  unfold mark?
  cases leftBracket? line <;> simp

theorem mark?_closing_iff :
    mark? line = some (.closing b) ↔ leftBracket? line = none ∧ rightBracket? line = some b := by
  unfold mark?
  cases leftBracket? line <;> simp

theorem not_entry_of_head?
    (h : ∀ c, (Text.trim line.toList).head? = some c → ¬(c.isAlpha = true ∨ c = '_')) :
    includeTarget? line = none ∧ header? line = none := by
  cases hline : Text.trim line.toList with
  | nil =>
    unfold includeTarget? header?
    rw [hline]
    exact ⟨rfl, rfl⟩
  | cons c cs =>
    have hc := h c (by rw [hline]; rfl)
    constructor
    · unfold includeTarget?
      rw [hline]
      cases hafter : after? "include".toList (c :: cs) with
      | none => rfl
      | some rest =>
        obtain ⟨rfl, -⟩ := List.cons_eq_cons.1 (after?_eq_some hafter)
        exact absurd (by decide) hc
    · unfold header? identifier?
      rw [hline]
      simp only [if_neg hc]
      rfl

theorem IsPlain.not_entry (h : IsPlain line) :
    includeTarget? line = none ∧ header? line = none := by
  rcases h with hempty | hcomment | hmark | ⟨-, hline⟩
  · apply not_entry_of_head?
    unfold isEmptyLine at hempty
    rw [List.isEmpty_iff.1 hempty]
    simp
  · apply not_entry_of_head?
    intro c hc
    have hhead := Text.head?_trimEnd (of_decide_eq_true hcomment) (by decide)
    obtain rfl := Option.some.inj (hc.symm.trans hhead)
    decide
  · apply not_entry_of_head?
    intro c hc
    unfold mark? at hmark
    split at hmark
    · next b hleft =>
      rw [trim_of_leftBracket? hleft] at hc
      cases b <;> obtain rfl := Option.some.inj hc <;> decide
    · cases hright : rightBracket? line with
      | none =>
        rw [hright] at hmark
        exact absurd rfl hmark
      | some b =>
        rw [trim_of_rightBracket? hright] at hc
        cases b <;> obtain rfl := Option.some.inj hc <;> decide
  · exact hline

/-- A plain line without a bracket that starts a command is the whole command. -/
theorem IsPlain.exists_complete (h : IsPlain line) (hmark : mark? line = none)
    (hline : ¬(isEmptyLine line = true ∨ isCommentLine line = true)) :
    ∃ statements, Shell.tokenize (Shell.firstLine line) = .complete statements := by
  rcases h with hempty | hcomment | hbracket | ⟨hscan, -⟩
  · exact absurd (.inl hempty) hline
  · exact absurd (.inr hcomment) hline
  · exact absurd hmark hbracket
  · exact hscan

theorem IsPlain.classify_opening (h : IsPlain line) (hmark : mark? line = some (.opening b)) :
    classify line = .left b := by
  obtain ⟨hinclude, hheader⟩ := h.not_entry
  unfold classify
  rw [hinclude, hheader, mark?_opening_iff.1 hmark]

theorem IsPlain.classify_closing (h : IsPlain line) (hmark : mark? line = some (.closing b)) :
    classify line = .right b := by
  obtain ⟨hinclude, hheader⟩ := h.not_entry
  obtain ⟨hleft, hright⟩ := mark?_closing_iff.1 hmark
  unfold classify
  rw [hinclude, hheader, hleft, hright]

/-- What a plain line without a bracket is outside of blocks. -/
theorem IsPlain.classify_cases (h : IsPlain line) (hmark : mark? line = none) :
    (classify line = .empty ∨ classify line = .comment) ∨ classify line = .attribute ∨
      (∃ name value, classify line = .variable name value) ∨
        classify line = .command ∧ ¬(isEmptyLine line = true ∨ isCommentLine line = true) := by
  obtain ⟨hinclude, hheader⟩ := h.not_entry
  obtain ⟨hleft, hright⟩ := mark?_eq_none_iff.1 hmark
  unfold classify
  rw [hinclude, hheader, hleft, hright]
  simp only
  split
  · exact .inl (.inl rfl)
  next hempty =>
  split
  · exact .inr (.inl rfl)
  split
  · exact .inl (.inr rfl)
  next hcomment =>
  split
  · next name value _ => exact .inr (.inr (.inl ⟨name, value, rfl⟩))
  · exact .inr (.inr (.inr ⟨rfl, not_or.2 ⟨hempty, hcomment⟩⟩))

end Lines

/-! ## The loader keeps the same brackets -/

/-- The brackets of the open blocks, the innermost first. -/
def Nest.brackets (n : Nest) : List Bracket :=
  n.inner.bracket :: n.outer.map Frame.bracket

namespace Nest

variable {n : Nest} {line : String} {b : Bracket}

theorem exists_moves_of_plain (hline : IsPlain line) (hmark : mark? line = none)
    (hcommand : n.command = none) (t : Table) :
    ∃ n' t', n.Moves line t (.inside n' t') ∧ n'.command = none ∧ n'.brackets = n.brackets := by
  obtain ⟨hleft, hright⟩ := mark?_eq_none_iff.1 hmark
  by_cases hskip : isEmptyLine line = true ∨ isCommentLine line = true
  · exact ⟨n, t, .skip hcommand hright hleft hskip, hcommand, rfl⟩
  · obtain ⟨statements, hscan⟩ := hline.exists_complete hmark hskip
    have hreads : n.Reads line (Shell.firstLine line) :=
      .inr ⟨hcommand, ⟨hright, hleft, hskip⟩, rfl⟩
    exact ⟨_, _, .command _ statements hreads hscan, rfl, rfl⟩

end Nest

namespace State

/-- The load is between entries or in a block of the default block, with no open command, and these
brackets are open. -/
structure Scanning (s : State) (stack : List Bracket) : Prop where
  default : ∃ b, s.pipeline.blocks[Pipeline.defaultIndex]? = some b
  mode : (s.mode = .idle ∧ stack = []) ∨
    ∃ n, s.mode = .body none n ∧ n.command = none ∧ stack = n.brackets

variable {c : Setting} {file line : String} {pos : Position} {s t : State} {b : Bracket}
  {stack : List Bracket} {lines : List String} {k : Nat}

theorem scanning_start (options : Options) : (start options).Scanning [] :=
  ⟨⟨_, rfl⟩, .inl ⟨rfl, rfl⟩⟩

theorem Scanning.moves (h : s.Scanning stack) (hmove : s.Moves c pos line t)
    {stack' : List Bracket} (hmode : (t.mode = .idle ∧ stack' = []) ∨
      ∃ n, t.mode = .body none n ∧ n.command = none ∧ stack' = n.brackets) :
    t.Scanning stack' := by
  obtain ⟨b, hb⟩ := h.default
  exact ⟨⟨b, hmove.getElem?_blocks hb⟩, hmode⟩

theorem Scanning.exists_moves_of_plain (h : s.Scanning stack) (hline : IsPlain line)
    (hmark : mark? line = none) : ∃ t, s.Moves c pos line t ∧ t.Scanning stack := by
  rcases h.mode with ⟨hmode, hstack⟩ | ⟨n, hmode, hcommand, hstack⟩
  · suffices hidle : ∃ t, s.Moves c pos line t ∧ t.mode = .idle by
      obtain ⟨t, hmove, hidle⟩ := hidle
      exact ⟨t, hmove, h.moves hmove (.inl ⟨hidle, hstack⟩)⟩
    rcases hline.classify_cases hmark with hskip | hattribute | ⟨name, value, hvariable⟩ |
      ⟨hcommand, hskip⟩
    · exact ⟨s, .skip hmode hskip, hmode⟩
    · cases hread : attribute? line with
      | none => exact ⟨s, .malformed hmode hattribute hread, hmode⟩
      | some a => exact ⟨_, .annotates a hmode hattribute hread, hmode⟩
    · exact ⟨_, .assigns name value hmode hvariable, hmode⟩
    · obtain ⟨statements, hscan⟩ := hline.exists_complete hmark hskip
      obtain ⟨b, hb⟩ := h.default
      exact ⟨_, .command _ _ statements b (.inr ⟨hmode, hcommand, rfl, rfl⟩) hscan
        (Pipeline.defaultBlock_of_getElem? hb), rfl⟩
  · obtain ⟨n', u, hmove, hcommand', hbrackets⟩ :=
      Nest.exists_moves_of_plain hline hmark hcommand s.pipeline.blocks
    have hinside : s.Moves c pos line _ := .inside none n n' u hmode hmove
    refine ⟨_, hinside, h.moves hinside (.inr ⟨n', rfl, hcommand', ?_⟩)⟩
    rw [hstack, hbrackets]

theorem Scanning.exists_moves_of_opening (h : s.Scanning stack) (hline : IsPlain line)
    (hmark : mark? line = some (.opening b)) :
    ∃ t, s.Moves c pos line t ∧ t.Scanning (b :: stack) := by
  rcases h.mode with ⟨hmode, rfl⟩ | ⟨n, hmode, hcommand, rfl⟩
  · have hmove : s.Moves c pos line _ := .opening b hmode (hline.classify_opening hmark)
    exact ⟨_, hmove, h.moves hmove (.inr ⟨.new b, rfl, rfl, rfl⟩)⟩
  · have hleft := mark?_opening_iff.1 hmark
    have hmove : s.Moves c pos line _ := .inside none n _ _ hmode
      (.opening b hcommand (rightBracket?_of_leftBracket? hleft) hleft)
    exact ⟨_, hmove, h.moves hmove (.inr ⟨_, rfl, rfl, rfl⟩)⟩

theorem Scanning.exists_moves_of_closing (h : s.Scanning (b :: stack))
    (hmark : mark? line = some (.closing b)) :
    ∃ t, s.Moves c pos line t ∧ t.Scanning stack := by
  rcases h.mode with ⟨-, hstack⟩ | ⟨n, hmode, hcommand, hstack⟩
  · cases hstack
  · obtain ⟨rfl, rfl⟩ := List.cons_eq_cons.1 hstack
    have hright := (mark?_closing_iff.1 hmark).2
    cases houter : n.outer with
    | nil =>
      have hmove : s.Moves c pos line _ := .closing n _ _ hmode (.closing hcommand houter hright)
      exact ⟨_, hmove, h.moves hmove (.inl ⟨rfl, rfl⟩)⟩
    | cons f fs =>
      have hmove : s.Moves c pos line _ := .inside none n _ _ hmode
        (.nested f fs hcommand houter hright)
      exact ⟨_, hmove, h.moves hmove (.inr ⟨_, rfl, rfl, rfl⟩)⟩

theorem Scanning.step_of_unmatched (h : s.Scanning []) (hline : IsPlain line)
    (hmark : mark? line = some (.closing b)) :
    (s.step c pos line).result = .error (.unmatchedRightBracket pos b) := by
  rcases h.mode with ⟨hmode, -⟩ | ⟨n, -, -, hstack⟩
  · simp [step, hmode, stepIdle, hline.classify_closing hmark, keepsPending, Except.bind]
  · cases hstack

theorem Scanning.step_of_mismatched {expected : Bracket} (h : s.Scanning (expected :: stack))
    (hmark : mark? line = some (.closing b)) (hne : b ≠ expected) :
    (s.step c pos line).result = .error (.mismatchedBracket pos b expected) := by
  rcases h.mode with ⟨-, hstack⟩ | ⟨n, hmode, hcommand, hstack⟩
  · cases hstack
  · obtain ⟨rfl, rfl⟩ := List.cons_eq_cons.1 hstack
    have hright := (mark?_closing_iff.1 hmark).2
    simp [step, hmode, stepBody, Nest.step, hcommand, hright, hne, Except.bind]

theorem Scanning.finish_of_open (h : s.Scanning (b :: stack)) (last : Position) :
    (s.finish last).result = .error (.missingRightBracket last b) := by
  rcases h.mode with ⟨-, hstack⟩ | ⟨n, hmode, hcommand, hstack⟩
  · cases hstack
  · obtain ⟨rfl, rfl⟩ := List.cons_eq_cons.1 hstack
    simp [finish, hmode, Nest.endError, hcommand]

theorem Scanning.exists_finish (h : s.Scanning []) (last : Position) :
    ∃ d, (s.finish last).result = .ok d := by
  obtain ⟨b, hb⟩ := h.default
  rcases h.mode with ⟨hmode, -⟩ | ⟨n, -, -, hstack⟩
  · exact ⟨_, finish_ok_iff.2 ⟨hmode, (Array.getElem?_eq_some_iff.1 hb).1, rfl⟩⟩
  · cases hstack

/-- The result of some lines up to the end of the text. -/
def endResult (s : State) (c : Setting) (file : String) (k : Nat) (lines : List String) :
    Except LoadError Loaded :=
  (s.run c file k lines).result.bind fun t => (t.finish ⟨file, k + lines.length⟩).result

theorem endResult_cons (h : s.Moves c ⟨file, k + 1⟩ line t) (lines : List String) :
    s.endResult c file k (line :: lines) = t.endResult c file (k + 1) lines := by
  unfold endResult
  rw [result_run_cons h, List.length_cons, Nat.add_right_comm, Nat.add_assoc]

theorem endResult_of_error {e : LoadError} (h : (s.step c ⟨file, k + 1⟩ line).result = .error e)
    (lines : List String) : s.endResult c file k (line :: lines) = .error e := by
  unfold endResult
  rw [run, Logged.result_bind, h]
  rfl

/-- **Scans.** Plain lines lead to a document when the scan finds no fault, and else to the
fault. -/
theorem Scanning.endResult_eq (h : s.Scanning stack) (hplain : ∀ line ∈ lines, IsPlain line) :
    (∃ d, fault? file k stack lines = none ∧ s.endResult c file k lines = .ok d) ∨
      ∃ e, fault? file k stack lines = some e ∧ s.endResult c file k lines = .error e := by
  fun_induction fault? file k stack lines generalizing s with
  | case1 k =>
    obtain ⟨d, hd⟩ := h.exists_finish ⟨file, k⟩
    exact .inl ⟨d, rfl, hd⟩
  | case2 k b stack => exact .inr ⟨_, rfl, h.finish_of_open ⟨file, k⟩⟩
  | case3 k stack line lines hmark ih =>
    obtain ⟨hline, hlines⟩ := List.forall_mem_cons.1 hplain
    obtain ⟨t, hmove, ht⟩ := h.exists_moves_of_plain hline hmark
    rw [endResult_cons hmove]
    exact ih ht hlines
  | case4 k stack line lines b hmark ih =>
    obtain ⟨hline, hlines⟩ := List.forall_mem_cons.1 hplain
    obtain ⟨t, hmove, ht⟩ := h.exists_moves_of_opening hline hmark
    rw [endResult_cons hmove]
    exact ih ht hlines
  | case5 k line lines b hmark =>
    obtain ⟨hline, -⟩ := List.forall_mem_cons.1 hplain
    exact .inr ⟨_, rfl, endResult_of_error (h.step_of_unmatched hline hmark) lines⟩
  | case6 k line lines stack b hmark ih =>
    obtain ⟨-, hlines⟩ := List.forall_mem_cons.1 hplain
    obtain ⟨t, hmove, ht⟩ := h.exists_moves_of_closing hmark
    rw [endResult_cons hmove]
    exact ih ht hlines
  | case7 k line lines b expected stack hmark hne =>
    exact .inr ⟨_, rfl, endResult_of_error (h.step_of_mismatched hmark hne) lines⟩

end State

/-! ## Documents -/

variable {c : Setting} {file text : String}

/-- **Well-nested documents.** A document of plain lines loads exactly when its brackets are well
nested, and else it fails with the fault that the scan finds first. -/
theorem loadText_brackets (hplain : ∀ line ∈ Text.lines text, IsPlain line) :
    ((∃ d, (loadText c file text).result = .ok d) ↔
      WellNested ((Text.lines text).filterMap mark?)) ∧
    ∀ e, (loadText c file text).result = .error e ↔
      fault? file 0 [] (Text.lines text) = some e := by
  have hload : (loadText c file text).result =
      (State.start c.options).endResult c file 0 (Text.lines text) := by
    unfold loadText loadLines State.endResult
    rw [Logged.result_bind, Nat.zero_add]
  have hnested : WellNested ((Text.lines text).filterMap mark?) ↔
      fault? file 0 [] (Text.lines text) = none :=
    wellNested_iff_unwinds.trans fault?_eq_none_iff.symm
  have hscan : (∃ d, fault? file 0 [] (Text.lines text) = none ∧
        (State.start c.options).endResult c file 0 (Text.lines text) = .ok d) ∨
      ∃ e, fault? file 0 [] (Text.lines text) = some e ∧
        (State.start c.options).endResult c file 0 (Text.lines text) = .error e :=
    (State.scanning_start c.options).endResult_eq hplain
  rw [hnested, hload]
  rcases hscan with ⟨d, hfault, hresult⟩ | ⟨e, hfault, hresult⟩
  · rw [hfault, hresult]
    simp
  · rw [hfault, hresult]
    simp [eq_comm]

/-- A document with blocks in blocks, a comment and a variable. -/
def balancedDocument : String :=
  Text.unlines
    ["# all", "\x7b", "\tmake a", "\t\x7b\x7b", "\t\tb; c", "\t\x7d\x7d", "\x7d", "", "x = 1"]

/-- A document whose inner block is closed by the bracket of the outer one. -/
def crossedDocument : String :=
  Text.unlines ["\x7b", "\tmake a", "\t\x7b\x7b", "\t\t# all", "\t\x7d", "\x7d\x7d"]

theorem loadText_brackets_balancedDocument :
    (∃ d, (loadText .alone "doc.pipe" balancedDocument).result = .ok d) ∧
      (loadText .alone "doc.pipe" crossedDocument).result =
        .error (.mismatchedBracket ⟨"doc.pipe", 5⟩ .sequential .parallel) := by
  have hbalanced : ∀ line ∈ Text.lines balancedDocument, IsPlain line := by decide +kernel
  have hcrossed : ∀ line ∈ Text.lines crossedDocument, IsPlain line := by decide +kernel
  have hword : (Text.lines balancedDocument).filterMap mark? =
      [.opening .sequential, .opening .parallel, .closing .parallel, .closing .sequential] := by
    decide +kernel
  constructor
  · apply (loadText_brackets hbalanced).1.2
    rw [hword]
    exact .nest .sequential (.nest .parallel .nil .nil) .nil
  · exact ((loadText_brackets hcrossed).2 _).2 (by decide +kernel)

end Runbook.Document
