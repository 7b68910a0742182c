import Runbook.Proofs.Document.Command
import Runbook.Proofs.Shell.LineFeeds

/-!
# Commands read from a source

A command is read from the line under the cursor and as many lines behind it as complete it, and no
more (`exists_completes_of_readCommandFrom`). No line feed between these lines ends a statement:
each is part of a quoted span of one word (`exists_lines_of_readCommand`).
-/

namespace Runbook.Document

open Shell (Malformed QuotesLineFeeds Statement Unbroken joinLine tokenize)

/-- The text of the command under the cursor with the next `n` lines. -/
def Source.commandText (s : Source) (n : Nat) : String :=
  Shell.joined s.current (s.rest.take n)

/-- The source with the cursor moved over `n` lines. -/
def Source.skip (s : Source) (n : Nat) : Source :=
  ⟨s.file, (s.rest.take n).reverse ++ s.seen, s.rest.drop n⟩

/-! ## Lines that complete a command -/

namespace Completes

variable {whole text line : String} {more : List String} {statements : List Statement}

theorem eq_foldl (h : Completes whole text more) : whole = more.foldl joinLine text := by
  induction more generalizing text with
  | nil => exact Eq.symm h
  | cons line more ih => exact ih h.2

theorem unfinished (h : Completes whole text more) {k : Nat} (hk : k < more.length) :
    tokenize ((more.take k).foldl joinLine text) = .unfinished := by
  induction more generalizing text k with
  | nil => cases hk
  | cons line more ih =>
    cases k with
    | zero => exact h.1
    | succ k => exact ih h.2 (Nat.lt_of_succ_lt_succ hk)

theorem not_malformed (h : Completes whole text more)
    (hwhole : tokenize whole = .complete statements) (m : Malformed) :
    tokenize text ≠ .malformed m := by
  intro hm
  cases more with
  | nil =>
    obtain rfl : text = whole := h
    cases hm.symm.trans hwhole
  | cons line more => cases hm.symm.trans h.1

theorem quotesLineFeeds (h : Completes whole text more)
    (hwhole : tokenize whole = .complete statements) (htext : QuotesLineFeeds text.toList)
    (hmore : ∀ line ∈ more, '\n' ∉ line.toList) : QuotesLineFeeds whole.toList := by
  induction more generalizing text with
  | nil =>
    obtain rfl : text = whole := h
    exact htext
  | cons line more ih =>
    obtain ⟨hline, hmore⟩ := List.forall_mem_cons.1 hmore
    exact ih h.2 (htext.joinLine h.1 hline (not_malformed h.2 hwhole)) hmore

end Completes

/-! ## Reading -/

section

variable {t : Table} {parallel : Bool} {items : List Item} {file text line : String}
  {seen rest : List String} {statements : List Statement}

theorem readCommandFrom_of_complete (h : tokenize text = .complete statements) :
    readCommandFrom file parallel t text seen rest =
      ⟨⟨file, seen, rest⟩, (Placement.ofCommand text statements parallel).addTo t,
        ⟨(Placement.ofCommand text statements parallel).records t,
          .ok ((Placement.ofCommand text statements parallel).itemsIn t)⟩⟩ := by
  unfold readCommandFrom commandAt
  rw [h]

theorem readCommandFrom_of_unfinished (h : tokenize text = .unfinished) :
    readCommandFrom file parallel t text seen (line :: rest) =
      readCommandFrom file parallel t (joinLine text line) (line :: seen) rest := by
  have hcommand : commandAt ⟨file, seen.length⟩ text = .ok none := by
    unfold commandAt
    rw [h]
  conv_lhs => unfold readCommandFrom
  rw [hcommand]

theorem complete_or_unfinished_of_readCommandFrom
    (h : (readCommandFrom file parallel t text seen rest).outcome.result = .ok items) :
    (∃ statements, tokenize text = .complete statements) ∨
      tokenize text = .unfinished ∧ rest ≠ [] := by
  unfold readCommandFrom commandAt at h
  cases hscan : tokenize text with
  | complete statements => exact .inl ⟨statements, rfl⟩
  | unfinished =>
    rw [hscan] at h
    cases rest with
    | nil => cases h
    | cons line rest => exact .inr ⟨rfl, List.cons_ne_nil _ _⟩
  | malformed m =>
    rw [hscan] at h
    cases h

theorem exists_completes_of_readCommandFrom
    (h : (readCommandFrom file parallel t text seen rest).outcome.result = .ok items) :
    ∃ more behind whole statements, rest = more ++ behind ∧ Completes whole text more ∧
      tokenize whole = .complete statements ∧
      (readCommandFrom file parallel t text seen rest).source =
        ⟨file, more.reverse ++ seen, behind⟩ ∧
      items = (Placement.ofCommand whole statements parallel).itemsIn t := by
  induction rest generalizing text seen with
  | nil =>
    obtain ⟨statements, hscan⟩ | ⟨-, hrest⟩ := complete_or_unfinished_of_readCommandFrom h
    · rw [readCommandFrom_of_complete hscan] at h ⊢
      exact ⟨[], [], text, statements, rfl, rfl, hscan, rfl, (Except.ok.inj h).symm⟩
    · exact absurd rfl hrest
  | cons line rest ih =>
    obtain ⟨statements, hscan⟩ | ⟨hscan, -⟩ := complete_or_unfinished_of_readCommandFrom h
    · rw [readCommandFrom_of_complete hscan] at h ⊢
      exact ⟨[], line :: rest, text, statements, rfl, rfl, hscan, rfl, (Except.ok.inj h).symm⟩
    · rw [readCommandFrom_of_unfinished hscan] at h ⊢
      obtain ⟨more, behind, whole, statements, rfl, hcompletes, hwhole, hsource, hitems⟩ := ih h
      refine ⟨line :: more, behind, whole, statements, rfl, ⟨hscan, hcompletes⟩, hwhole, ?_, hitems⟩
      rw [hsource, List.reverse_cons, List.append_assoc]
      rfl

end

theorem lineFeed_not_mem_firstLine {s : Source} (h : ∀ line ∈ s.lines, '\n' ∉ line.toList) :
    '\n' ∉ (Shell.firstLine s.current).toList := by
  unfold Shell.firstLine
  rw [Text.toList_trimmed]
  refine mt Text.mem_of_mem_trim ?_
  unfold Source.current
  cases hseen : s.seen with
  | nil => exact List.not_mem_nil
  | cons line seen => exact h line (by simp [Source.lines, hseen])

/-- **Continuation.** A command that is read from the lines of a text, which have no line feeds,
takes the least number of lines for which it is not unfinished. Its statements are set apart by a
`;` and by no line feed: every line feed in it is part of a quoted span of one word. -/
theorem exists_lines_of_readCommand {s : Source} {t : Table} {parallel : Bool} {items : List Item}
    (hlines : ∀ line ∈ s.lines, '\n' ∉ line.toList)
    (h : (readCommand s t parallel).outcome.result = .ok items) :
    ∃ n statements rows last, n ≤ s.rest.length ∧
      (∀ k < n, tokenize (s.commandText k) = .unfinished) ∧
      tokenize (s.commandText n) = .complete statements ∧
      Unbroken (s.commandText n) statements rows last ∧
      (readCommand s t parallel).source = s.skip n ∧
      items = (Placement.ofCommand (s.commandText n) statements parallel).itemsIn t := by
  unfold readCommand at h ⊢
  obtain ⟨more, behind, whole, statements, hrest, hcompletes, hwhole, hsource, hitems⟩ :=
    exists_completes_of_readCommandFrom h
  have hmore : ∀ line ∈ more, '\n' ∉ line.toList := fun line hline =>
    hlines line (List.mem_append_right _ (hrest ▸ List.mem_append_left _ hline))
  have hfeeds := hcompletes.quotesLineFeeds hwhole (.of_not_mem (lineFeed_not_mem_firstLine hlines))
    hmore
  obtain ⟨rows, last, hunbroken⟩ := Shell.exists_unbroken hwhole hfeeds
  have htext : s.commandText more.length = whole := by
    unfold Source.commandText Shell.joined
    rw [hrest, List.take_left, hcompletes.eq_foldl]
  refine ⟨more.length, statements, rows, last, ?_, fun k hk => ?_, ?_, ?_, ?_, ?_⟩
  · rw [hrest, List.length_append]
    exact Nat.le_add_right _ _
  · unfold Source.commandText Shell.joined
    rw [hrest, List.take_append_of_le_length (Nat.le_of_lt hk)]
    exact hcompletes.unfinished hk
  · rw [htext, hwhole]
  · rw [htext]
    exact hunbroken
  · unfold Source.skip
    rw [hsource, hrest, List.take_left, List.drop_left]
  · rw [htext, hitems]

/-- A command over four lines: a backslash ends the first one, the second one ends in quotes and a
backslash, and the third one in quotes. -/
def windingSource : Source where
  file := "doc.pipe"
  seen := ["echo \\"]
  rest := ["a 'b\\", "c", "d'; ls \"e\\n\"", "pwd"]

theorem exists_lines_of_readCommand_windingSource :
    (∀ line ∈ windingSource.lines, '\n' ∉ line.toList) ∧
      ∃ items, (readCommand windingSource #[] false).outcome.result = .ok items ∧
        items.length = 2 ∧ windingSource.commandText 3 = "echo a 'bc\nd'; ls \"e\\n\"" ∧
        ∃ n statements rows last, n ≤ windingSource.rest.length ∧
          (∀ k < n, tokenize (windingSource.commandText k) = .unfinished) ∧
          tokenize (windingSource.commandText n) = .complete statements ∧
          Unbroken (windingSource.commandText n) statements rows last ∧
          (readCommand windingSource #[] false).source = windingSource.skip n ∧
          items = (Placement.ofCommand (windingSource.commandText n) statements false).itemsIn
            #[] := by
  have hlines : ∀ line ∈ windingSource.lines, '\n' ∉ line.toList := by decide +kernel
  have hread : ∃ items, (readCommand windingSource #[] false).outcome.result = .ok items ∧
      items.length = 2 :=
    ⟨_, rfl, by decide +kernel⟩
  obtain ⟨items, hitems, hlength⟩ := hread
  exact ⟨hlines, items, hitems, hlength, by decide +kernel,
    exists_lines_of_readCommand hlines hitems⟩

end Runbook.Document
