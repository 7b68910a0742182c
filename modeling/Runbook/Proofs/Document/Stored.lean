import Runbook.Proofs.Document.Readback
import Runbook.Proofs.Shell.NormalText

/-!
# What a command line stores

The items of a command line are its statements, or the line as a whole when there is a lone bracket
among several statements. What an item holds is what its own text is read as, except for statements
that have lost a blank to trimming (`ofCommand_eq_ofLine`). An item passes for a bracket for the
same reason, or when it is all that stands on its line (`exists_bracket_ofCommand_iff`). The words
that the item of a whole line holds tell which statements it has (`words_eq_of_stored`).
-/

namespace Runbook

/-- The shell commands of a command line, in the block itself or in the new one. -/
def Placement.commands : Placement → List Item
  | .items xs => xs
  | .wrapped b => b.items

namespace Document

variable {line : String} {statements : List Shell.Statement} {parallel : Bool} {x : Item}

/-- A command line is stored as a whole, or statement by statement. -/
theorem mem_commands_ofCommand
    (hx : x ∈ (Placement.ofCommand line statements parallel).commands) :
    (1 < statements.length ∧ statements.any Shell.Statement.isBracket = true) ∧
        x = .ofStatements line statements ∨
      ¬(1 < statements.length ∧ statements.any Shell.Statement.isBracket = true) ∧
        ∃ s ∈ statements, x = .ofStatement s := by
  unfold Placement.ofCommand at hx
  split at hx
  · next hwhole => exact .inl ⟨hwhole, List.mem_singleton.1 hx⟩
  · next hsplit =>
    have hmem : x ∈ statements.map .ofStatement := by
      split at hx <;> exact hx
    obtain ⟨s, hs, rfl⟩ := List.mem_map.1 hmem
    exact .inr ⟨hsplit, s, hs, rfl⟩

/-! ## Words and texts -/

/-- **Stored words.** A line that is stored as a whole is what it is read as. The item of a
statement is what its text is read as, and the text is read as the statement again, exactly when the
statement is intact. -/
theorem ofCommand_eq_ofLine (htrimmed : Text.trimmed line = line)
    (hscan : Shell.tokenize line = .complete statements) (parallel : Bool) :
    ∀ x ∈ (Placement.ofCommand line statements parallel).commands,
      x = .ofStatements line statements ∧ x = .ofLine line ∨
        ∃ s ∈ statements, x = .ofStatement s ∧
          (x = .ofLine s.text ∧ Shell.tokenize s.text = .complete [s] ↔ s.IsIntact) := by
  intro x hx
  rcases mem_commands_ofCommand hx with ⟨-, rfl⟩ | ⟨-, s, hs, rfl⟩
  · exact .inl ⟨rfl, (ofLine_of_tokenize htrimmed hscan).symm⟩
  · refine .inr ⟨s, hs, rfl, ?_⟩
    rw [← Shell.tokenize_text_iff hscan hs, and_iff_right_iff_imp]
    intro hself
    rw [ofLine_of_tokenize (Shell.trimmed_of_tokenize hscan s hs) hself, ofStatements_singleton]

/-- Two statements and a comment, with a separator in quotes. -/
def pairLine : String :=
  "echo 'a;b' ; make all # both"

theorem ofCommand_eq_ofLine_pairLine :
    ∃ statements, Shell.tokenize pairLine = .complete statements ∧
      (∀ s ∈ statements, s.IsIntact) ∧
      ∀ x ∈ (Placement.ofCommand pairLine statements true).commands,
        x = .ofStatements pairLine statements ∧ x = .ofLine pairLine ∨
          ∃ s ∈ statements, x = .ofStatement s ∧
            (x = .ofLine s.text ∧ Shell.tokenize s.text = .complete [s] ↔ s.IsIntact) :=
  ⟨_, rfl, by decide, ofCommand_eq_ofLine (by decide) rfl true⟩

/-- A statement that begins with a blank that separates no words. -/
def blankLine : String :=
  "a;\u00a0b"

/-- Trimming takes the blank from the text, and the word keeps it. -/
theorem ofCommand_ne_ofLine_blankLine :
    Text.trimmed blankLine = blankLine ∧
      ∃ statements, Shell.tokenize blankLine = .complete statements ∧
        ∃ x ∈ (Placement.ofCommand blankLine statements false).commands,
          x = .shell "b" "\u00a0b" [] ∧ x ≠ .ofLine "b" :=
  ⟨by decide, _, rfl, .shell "b" "\u00a0b" [], by decide, rfl, by decide⟩

/-! ## Brackets -/

/-- A shell command that a document reads as a bracket. -/
def IsBracketItem (x : Item) : Prop :=
  ∃ text head args, x.action = .shell text head args ∧
    ((leftBracket? text).isSome ∨ (rightBracket? text).isSome)

theorem isBracketText_of_recognised {text : String}
    (h : (leftBracket? text).isSome ∨ (rightBracket? text).isSome) :
    IsBracketText (Text.trimmed text) := by
  by_contra hbare
  rw [leftBracket?_eq_none hbare, rightBracket?_eq_none hbare] at h
  rcases h with h | h <;> cases h

theorem recognised_of_isBracketText {text : String} (h : IsBracketText text) :
    (leftBracket? text).isSome ∨ (rightBracket? text).isSome := by
  rcases h with ⟨b, rfl | rfl⟩
  · cases b <;> exact .inl rfl
  · cases b <;> exact .inr rfl

theorem isBracket_of_tokenize {s : Shell.Statement} {text : String} (h : IsBracketText text)
    (hscan : Shell.tokenize text = .complete [s]) : s.isBracket = true := by
  rcases h with ⟨b, rfl | rfl⟩ <;> cases b <;> cases hscan <;> rfl

theorem mem_commands_of_split {s : Shell.Statement} (hs : s ∈ statements)
    (hsplit : ¬(1 < statements.length ∧ statements.any Shell.Statement.isBracket = true))
    (parallel : Bool) :
    .ofStatement s ∈ (Placement.ofCommand line statements parallel).commands := by
  unfold Placement.ofCommand
  rw [if_neg hsplit]
  split <;> exact List.mem_map_of_mem hs

/-- **Lone brackets.** A command of a line that is no bracket passes for a bracket in two cases: the
line has this one statement and a separator, or trimming has made a bracket of the text of a
statement that is no lone bracket, and no other statement is one. -/
theorem exists_bracket_ofCommand_iff (hleft : leftBracket? line = none)
    (hright : rightBracket? line = none) (hscan : Shell.tokenize line = .complete statements)
    (parallel : Bool) :
    (∃ x ∈ (Placement.ofCommand line statements parallel).commands, IsBracketItem x) ↔
      (∃ s, statements = [s] ∧ IsBracketText s.text) ∨
        (∃ s ∈ statements, IsBracketText s.text ∧ ¬s.IsIntact) ∧
          ∀ s ∈ statements, s.isBracket = false := by
  constructor
  · rintro ⟨x, hx, text, head, args, haction, hrecognised⟩
    rcases mem_commands_ofCommand hx with ⟨-, rfl⟩ | ⟨hsplit, s, hs, rfl⟩
    · obtain ⟨head', args', haction'⟩ := exists_action_ofStatements line statements
      cases haction'.symm.trans haction
      rw [hleft, hright] at hrecognised
      rcases hrecognised with h | h <;> cases h
    · cases haction
      have hbracket := isBracketText_of_recognised hrecognised
      rw [Shell.trimmed_of_tokenize hscan s hs] at hbracket
      by_cases hany : statements.any Shell.Statement.isBracket = true
      · have hpos := List.length_pos_of_mem hs
        have hle : ¬1 < statements.length := fun h => hsplit ⟨h, hany⟩
        obtain ⟨s', rfl⟩ := List.length_eq_one_iff.1 (by omega : statements.length = 1)
        obtain rfl := List.mem_singleton.1 hs
        exact .inl ⟨s, rfl, hbracket⟩
      · have hnone : ∀ s ∈ statements, s.isBracket = false := by simpa using hany
        refine .inr ⟨⟨s, hs, hbracket, fun hintact => ?_⟩, hnone⟩
        have hself := (Shell.tokenize_text_iff hscan hs).2 hintact
        cases (hnone s hs).symm.trans (isBracket_of_tokenize hbracket hself)
  · rintro (⟨s, rfl, hbracket⟩ | ⟨⟨s, hs, hbracket, -⟩, hnone⟩)
    · exact ⟨.ofStatement s, mem_commands_of_split List.mem_cons_self (by simp) parallel, s.text,
        s.head, s.args, rfl, recognised_of_isBracketText hbracket⟩
    · have hany : ¬(1 < statements.length ∧
          statements.any Shell.Statement.isBracket = true) := by
        rintro ⟨-, hany⟩
        obtain ⟨s', hs', hlone⟩ := List.any_eq_true.1 hany
        cases (hnone s' hs').symm.trans hlone
      exact ⟨.ofStatement s, mem_commands_of_split hs hany parallel, s.text, s.head, s.args, rfl,
        recognised_of_isBracketText hbracket⟩

theorem not_isBracketItem_several :
    ∃ statements, Shell.tokenize "make; \x7d" = .complete statements ∧
      ¬∃ x ∈ (Placement.ofCommand "make; \x7d" statements true).commands, IsBracketItem x := by
  refine ⟨_, rfl, fun h => ?_⟩
  rcases (exists_bracket_ofCommand_iff (by decide) (by decide) rfl true).1 h with
    ⟨s, hs, -⟩ | ⟨-, hnone⟩
  · cases hs
  · revert hnone
    decide

/-- The text of the one statement leaves the separator out. -/
theorem isBracketItem_single :
    leftBracket? "\x7d;" = none ∧ rightBracket? "\x7d;" = none ∧
      ∃ statements, Shell.tokenize "\x7d;" = .complete statements ∧
        ∀ parallel, ∃ x ∈ (Placement.ofCommand "\x7d;" statements parallel).commands,
          IsBracketItem x := by
  refine ⟨by decide, by decide, _, rfl, fun parallel => ⟨.shell "\x7d" "\x7d" [], ?_, ?_⟩⟩
  · cases parallel <;> decide
  · exact ⟨"\x7d", "\x7d", [], rfl, .inr rfl⟩

/-! ## Words and statements -/

/-- With blanks between them, the words stored for a command are its normal text. -/
theorem intercalate_stored {head : String} {args : List String}
    (hscan : Shell.tokenize line = .complete statements) {text : String}
    (h : (Item.ofStatements text statements).action = .shell text head args) :
    " ".intercalate (head :: args) = Shell.normalText statements := by
  rw [← Shell.intercalate_wordTexts fun s hs => Shell.words_ne_nil_of_tokenize hscan hs]
  unfold Item.ofStatements at h
  split at h <;> next hwords => rw [hwords]; cases h; rfl

/-- **Stored words and statements.** Joined with single blanks, and ` ; ` between statements, the
words of a command are read as the same words in the same statements. So commands for which the same
words are stored, a `;` between those of two statements, have the same statements word by word. -/
theorem words_eq_of_stored (hscan : Shell.tokenize line = .complete statements) :
    (∃ again, Shell.tokenize (Shell.normalText statements) = .complete again ∧
      again.map Shell.Statement.words = statements.map Shell.Statement.words) ∧
    ∀ line' statements' text text' head args,
      Shell.tokenize line' = .complete statements' →
      (Item.ofStatements text statements).action = .shell text head args →
      (Item.ofStatements text' statements').action = .shell text' head args →
      statements'.map Shell.Statement.words = statements.map Shell.Statement.words := by
  refine ⟨⟨_, Shell.tokenize_normalText hscan, Shell.map_words_normal statements⟩, ?_⟩
  intro line' statements' text text' head args hscan' hstored hstored'
  have hnormal := Shell.tokenize_normalText hscan
  have hnormal' := Shell.tokenize_normalText hscan'
  rw [← intercalate_stored hscan' hstored', intercalate_stored hscan hstored, hnormal] at hnormal'
  have hsame : statements.map Shell.Statement.normal = statements'.map .normal :=
    Shell.Outcome.complete.inj hnormal'
  rw [← Shell.map_words_normal statements', ← hsame, Shell.map_words_normal]

/-- A command with a redirection, an operator, a `#` within a word and a comment. -/
def redirectLine : String :=
  "run 2>&1|tee 'a; b';\techo a#b &>all.log # note"

/-- The same words, with a line feed between the statements. -/
def respacedLine : String :=
  "run  2>&1 | tee 'a; b'\necho a#b &>all.log "

theorem words_eq_of_stored_redirectLine :
    ∃ statements statements', Shell.tokenize redirectLine = .complete statements ∧
      Shell.tokenize respacedLine = .complete statements' ∧
      Shell.normalText statements = "run 2>&1 | tee 'a; b' ; echo a#b &>all.log" ∧
      (∃ again, Shell.tokenize (Shell.normalText statements) = .complete again ∧
        again.map Shell.Statement.words = statements.map Shell.Statement.words) ∧
      statements'.map Shell.Statement.words = statements.map Shell.Statement.words := by
  have hread : ∃ statements, Shell.tokenize redirectLine = .complete statements ∧
      Shell.normalText statements = "run 2>&1 | tee 'a; b' ; echo a#b &>all.log" ∧
      (Item.ofStatements redirectLine statements).action = .shell redirectLine "run"
        ["2>&1", "|", "tee", "'a; b'", ";", "echo", "a#b", "&>all.log"] :=
    ⟨_, rfl, by decide +kernel, rfl⟩
  have hread' : ∃ statements, Shell.tokenize respacedLine = .complete statements ∧
      (Item.ofStatements respacedLine statements).action = .shell respacedLine "run"
        ["2>&1", "|", "tee", "'a; b'", ";", "echo", "a#b", "&>all.log"] :=
    ⟨_, rfl, rfl⟩
  obtain ⟨statements, hscan, hnormal, hstored⟩ := hread
  obtain ⟨statements', hscan', hstored'⟩ := hread'
  obtain ⟨hagain, hunique⟩ := words_eq_of_stored hscan
  exact ⟨statements, statements', hscan, hscan', hnormal, hagain,
    hunique _ _ _ _ _ _ hscan' hstored hstored'⟩

end Document

end Runbook
