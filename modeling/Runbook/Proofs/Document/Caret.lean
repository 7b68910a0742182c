import Runbook.Proofs.Document.Safety
import Runbook.Proofs.Shell.Faults

/-!
# Where the caret stands in an error

The message of an error about a malformed command shows the command, and below it a caret for the
fault. Both are indented, the command at its first row only. So the caret stands right under the
character that the fault stands at exactly when the command is one row (`isUnder_iff_of_loadText`);
else it stands too far to the right, or below another row.
-/

namespace Runbook.Document

open Shell (Malformed column column_append column_append_of_mem column_of_not_mem tokenize)
open Text (byteLength)

/-- What follows the one text stands right under what follows the other: in the next row and in the
same column. -/
def IsUnder (lower upper : List Char) : Prop :=
  lower.count '\n' = upper.count '\n' + 1 ∧ column lower = column upper

/-! ## The message -/

/-- The message about a malformed command up to the command. -/
def commandHeading (pos : Position) : List Char :=
  ("Error when parsing shell command at " ++ pos.text ++ ":\n   ").toList

/-- The message shows the character that the fault stands at behind `character`, and the caret
behind `caret`. -/
structure Shows (pos : Position) (line : String) (m : Malformed) (character caret : List Char) :
    Prop where
  command : ∃ below, (LoadError.malformedCommand pos line m).message.toList =
    commandHeading pos ++ line.toList ++ below
  character : ∃ before c behind, line.toList = before ++ c :: behind ∧
    m.offset = byteLength before ∧ character = commandHeading pos ++ before
  caret : (LoadError.malformedCommand pos line m).message.toList =
    caret ++ '^' :: ' ' :: m.fault.message.toList

section

variable {pos : Position} {line : String} {m : Malformed} {before behind : List Char} {c : Char}

theorem toList_message (pos : Position) (line : String) (m : Malformed) :
    (LoadError.malformedCommand pos line m).message.toList =
      commandHeading pos ++ line.toList ++ "\n   ".toList ++ (m.marker line).toList := by
  unfold LoadError.message commandHeading
  rw [String.toList_append, String.toList_append, String.toList_append]

theorem column_commandHeading (pos : Position) : column (commandHeading pos) = 3 := by
  unfold commandHeading
  rw [String.toList_append, column_append_of_mem _ (by decide)]
  rfl

/-- The caret stands three columns further to the right than the character in its row. -/
theorem column_caret (pos : Position) (line : String) (n : Nat) :
    column (commandHeading pos ++ line.toList ++ "\n   ".toList ++ List.replicate n ' ') =
      3 + n := by
  rw [column_append _ (by simp), column_append_of_mem _ (by decide), List.length_replicate]
  rfl

theorem isUnder_iff (hline : line.toList = before ++ c :: behind) (hc : c ≠ '\n') :
    IsUnder (commandHeading pos ++ line.toList ++ "\n   ".toList ++
        List.replicate (column before) ' ') (commandHeading pos ++ before) ↔
      '\n' ∉ line.toList := by
  have hcount : (commandHeading pos ++ line.toList ++ "\n   ".toList ++
      List.replicate (column before) ' ').count '\n' =
        (commandHeading pos ++ before).count '\n' + behind.count '\n' + 1 := by
    rw [hline]
    simp only [List.count_append, List.count_cons_of_ne hc, List.count_replicate]
    simp [Nat.add_assoc]
  unfold IsUnder
  rw [hcount, column_caret, hline]
  by_cases hbefore : '\n' ∈ before
  · rw [column_append_of_mem _ hbefore]
    constructor
    · rintro ⟨-, hcolumn⟩
      omega
    · exact fun h => absurd (List.mem_append_left _ hbefore) h
  · rw [column_append _ hbefore, column_commandHeading, column_of_not_mem hbefore]
    have hbehind : behind.count '\n' = 0 ↔ '\n' ∉ behind := List.count_eq_zero
    have hwhole : '\n' ∉ before ++ c :: behind ↔ '\n' ∉ behind := by
      simp [hbefore, Ne.symm hc]
    rw [hwhole, ← hbehind]
    omega

theorem shows_of_offset (pos : Position) (hline : line.toList = before ++ c :: behind)
    (hoffset : m.offset = byteLength before) :
    Shows pos line m (commandHeading pos ++ before)
      (commandHeading pos ++ line.toList ++ "\n   ".toList ++
        List.replicate (column before) ' ') where
  command := ⟨_, (toList_message pos line m).trans (List.append_assoc _ _ _)⟩
  character := ⟨before, c, behind, hline, hoffset, rfl⟩
  caret := by
    rw [toList_message, Shell.marker_eq hline hoffset]
    simp

theorem Shows.unique {character character' caret caret' : List Char}
    (h : Shows pos line m character caret) (h' : Shows pos line m character' caret') :
    character = character' ∧ caret = caret' := by
  constructor
  · obtain ⟨before, c, behind, hline, hoffset, rfl⟩ := h.character
    obtain ⟨before', c', behind', hline', hoffset', rfl⟩ := h'.character
    have hbefore : Shell.firstBytes m.offset line.toList = before := by
      rw [hline, hoffset, Shell.firstBytes_append]
    have hbefore' : Shell.firstBytes m.offset line.toList = before' := by
      rw [hline', hoffset', Shell.firstBytes_append]
    rw [hbefore.symm.trans hbefore']
  · exact List.append_cancel_right (h.caret.symm.trans h'.caret)

theorem exists_shows (h : tokenize line = .malformed m) (pos : Position) :
    ∃ character caret, Shows pos line m character caret ∧
      (IsUnder caret character ↔ '\n' ∉ line.toList) := by
  obtain ⟨before, c, behind, hline, hoffset, hc⟩ := Shell.exists_of_malformed h
  have hfeed : c ≠ '\n' := by
    rintro rfl
    revert hc
    decide
  exact ⟨_, _, shows_of_offset pos hline hoffset, isUnder_iff hline hfeed⟩

end

/-- **Carets.** The message of an error about a malformed command shows the character that the
fault stands at, and a caret for it. The caret stands right under the character, in the next row and
in the same column, exactly when the command is one row. -/
theorem isUnder_iff_of_loadText {c : Setting} {file text line : String} {pos : Position}
    {m : Malformed} (h : (loadText c file text).result = .error (.malformedCommand pos line m)) :
    (∃ character caret, Shows pos line m character caret) ∧
      ∀ character caret, Shows pos line m character caret →
        (IsUnder caret character ↔ '\n' ∉ line.toList) := by
  obtain ⟨character, caret, hshows, hunder⟩ := exists_shows (tokenize_of_loadText_error h) pos
  refine ⟨⟨character, caret, hshows⟩, fun character' caret' hshows' => ?_⟩
  obtain ⟨rfl, rfl⟩ := hshows.unique hshows'
  exact hunder

/-- A document whose command has a fault behind a letter of two bytes. -/
def flatDocument : String :=
  "  ls; echo \"ß\\q\"\n"

theorem isUnder_iff_of_loadText_flatDocument :
    (loadText .alone "doc.pipe" flatDocument).result = .error (.malformedCommand ⟨"doc.pipe", 1⟩
        "ls; echo \"ß\\q\"" ⟨12, .unsupportedEscape 'q'⟩) ∧
      ∃ character caret, Shows ⟨"doc.pipe", 1⟩ "ls; echo \"ß\\q\""
          ⟨12, .unsupportedEscape 'q'⟩ character caret ∧ IsUnder caret character := by
  have hload : (loadText .alone "doc.pipe" flatDocument).result = .error (.malformedCommand
      ⟨"doc.pipe", 1⟩ "ls; echo \"ß\\q\"" ⟨12, .unsupportedEscape 'q'⟩) := by
    decide +kernel
  obtain ⟨⟨character, caret, hshows⟩, hunder⟩ := isUnder_iff_of_loadText hload
  exact ⟨hload, character, caret, hshows, (hunder _ _ hshows).2 (by decide +kernel)⟩

/-- A document whose command has a fault at the start of its second row. -/
def steppedDocument : String :=
  "echo \"a\n\\q\"\n"

/-- The caret stands in the row under the character, but three columns to the right. -/
theorem not_isUnder_steppedDocument :
    (loadText .alone "doc.pipe" steppedDocument).result = .error (.malformedCommand
        ⟨"doc.pipe", 2⟩ "echo \"a\n\\q\"" ⟨8, .unsupportedEscape 'q'⟩) ∧
      (LoadError.malformedCommand ⟨"doc.pipe", 2⟩ "echo \"a\n\\q\""
        ⟨8, .unsupportedEscape 'q'⟩).message =
          "Error when parsing shell command at doc.pipe(2):\n   echo \"a\n\\q\"\n   ^ " ++
            "unsupported escape sequence '\\q'" ∧
      ∃ character caret, Shows ⟨"doc.pipe", 2⟩ "echo \"a\n\\q\""
          ⟨8, .unsupportedEscape 'q'⟩ character caret ∧
        column character = 0 ∧ column caret = 3 ∧ ¬IsUnder caret character := by
  have hline : "echo \"a\n\\q\"".toList = "echo \"a\n".toList ++ '\\' :: "q\"".toList := rfl
  have hshows := shows_of_offset (m := ⟨8, .unsupportedEscape 'q'⟩) ⟨"doc.pipe", 2⟩ hline rfl
  have hcharacter : column (commandHeading ⟨"doc.pipe", 2⟩ ++ "echo \"a\n".toList) = 0 :=
    column_append_of_mem _ (by decide)
  refine ⟨by decide +kernel, by decide +kernel, _, _, hshows, hcharacter, column_caret _ _ _, ?_⟩
  rintro ⟨-, hcolumn⟩
  rw [hcharacter, column_caret] at hcolumn
  cases hcolumn

end Runbook.Document
