import Runbook.Proofs.Document.Header
import Runbook.Proofs.Document.Transition
import Runbook.Proofs.Pipeline.Represents
import Runbook.Proofs.Shell.Unfinished
import Runbook.Proofs.Text.Physical

/-!
# Commands that are read back

A command whose text is read back as itself: no start of it along its lines is a command, it stays
one item, and that item stands for the command (`ReadsAs`). Written into a block, at any indent,
such a command is read as that item (`Nest.follows_command`).
-/

namespace Runbook.Document

open Runbook.Text (isBlank physicalLines)

/-! ## Lines that stay inside -/

namespace Nest

/-- Lines that lead from some open blocks to others, the outermost one staying open. -/
inductive Follows : List String → Nest → Table → Nest → Table → Prop
  | nil (n : Nest) (t : Table) : Follows [] n t n t
  | cons {line : String} {lines : List String} {n n' n'' : Nest} {t t' t'' : Table}
    (hmove : n.Moves line t (.inside n' t')) (hrest : Follows lines n' t' n'' t'') :
    Follows (line :: lines) n t n'' t''

theorem Follows.append {xs ys : List String} {n n' n'' : Nest} {t t' t'' : Table}
    (h : Follows xs n t n' t') (h' : Follows ys n' t' n'' t'') :
    Follows (xs ++ ys) n t n'' t'' := by
  induction h with
  | nil => exact h'
  | cons hmove _ ih => exact .cons hmove (ih h')

end Nest

theorem State.run_of_follows {c : Setting} (file : String) {lines : List String} {n n' : Nest}
    {t t' : Table} (h : n.Follows lines t n' t') {s : State} {owner : Option Declaration}
    (hmode : s.mode = .body owner n) (htable : s.pipeline.blocks = t) (k : Nat) :
    (s.run c file k lines).result = .ok ((s.withTable t').enter (.body owner n')) := by
  induction h generalizing s k with
  | nil n t =>
    subst htable
    unfold State.run withTable enter
    rw [← hmode]
    rfl
  | cons hmove _ ih =>
    subst htable
    rw [State.run_cons_ok]
    refine ⟨_, .inside owner _ _ _ hmode hmove, ?_⟩
    rw [ih rfl rfl]
    rfl

/-! ## Lone brackets -/

/-- A text that is a bracket. -/
def IsBracketText (line : String) : Prop :=
  ∃ b : Bracket, line = b.opening ∨ line = b.closing

instance (line : String) : Decidable (IsBracketText line) :=
  decidable_of_iff (line ∈ [Bracket.sequential, .parallel].flatMap fun b => [b.opening, b.closing])
    (by
      unfold IsBracketText
      constructor
      · intro h
        obtain ⟨b, -, hb⟩ := List.mem_flatMap.1 h
        exact ⟨b, by simpa using hb⟩
      · rintro ⟨b, hb⟩
        exact List.mem_flatMap.2 ⟨b, by cases b <;> decide, by simpa using hb⟩)

theorem isBracketText_of_openingOf? {line : String} {b : Bracket}
    (h : openingOf? line.toList = some b) : IsBracketText line :=
  ⟨b, .inl (String.toList_injective (openingOf?_eq_some h))⟩

theorem closingOf?_eq_some {cs : List Char} {b : Bracket} (h : closingOf? cs = some b) :
    cs = b.closing.toList := by
  unfold closingOf? at h
  split_ifs at h with hs hp
  · obtain rfl := Option.some.inj h
    exact hs
  · obtain rfl := Option.some.inj h
    exact hp

theorem isBracketText_of_closingOf? {line : String} {b : Bracket}
    (h : closingOf? line.toList = some b) : IsBracketText line :=
  ⟨b, .inr (String.toList_injective (closingOf?_eq_some h))⟩

theorem leftBracket?_eq_none {line : String} (h : ¬IsBracketText (Text.trimmed line)) :
    leftBracket? line = none := by
  unfold leftBracket?
  rw [← Text.toList_trimmed]
  cases hb : openingOf? (Text.trimmed line).toList with
  | none => rfl
  | some b => exact absurd (isBracketText_of_openingOf? hb) h

theorem rightBracket?_eq_none {line : String} (h : ¬IsBracketText (Text.trimmed line)) :
    rightBracket? line = none := by
  unfold rightBracket?
  rw [← Text.toList_trimmed]
  cases hb : closingOf? (Text.trimmed line).toList with
  | none => rfl
  | some b => exact absurd (isBracketText_of_closingOf? hb) h

theorem trim_of_leftBracket? {line : String} {b : Bracket}
    (h : leftBracket? line = some b) :
    Text.trim line.toList = b.opening.toList :=
  openingOf?_eq_some h

theorem trim_of_rightBracket? {line : String} {b : Bracket}
    (h : rightBracket? line = some b) :
    Text.trim line.toList = b.closing.toList :=
  closingOf?_eq_some h

theorem rightBracket?_of_leftBracket? {line : String} {b : Bracket}
    (h : leftBracket? line = some b) :
    rightBracket? line = none := by
  unfold rightBracket?
  rw [trim_of_leftBracket? h]
  cases b <;> rfl

/-- A lone bracket is a command, so no command that goes on is one. -/
theorem not_isBracketText_of_unfinished {text : String} (h : Shell.tokenize text = .unfinished) :
    ¬IsBracketText text := by
  rintro ⟨b, rfl | rfl⟩ <;> cases b <;> cases h

/-! ## Commands -/

/-- The text becomes the whole command with the lines of `rest`, and not before the last one. -/
def Completes (line : String) : String → List String → Prop
  | text, [] => text = line
  | text, l :: rest =>
    Shell.tokenize text = .unfinished ∧ Completes line (Shell.joinLine text l) rest

theorem Completes.unique {line line' text : String} {more more' rest rest' : List String}
    {statements statements' : List Shell.Statement} (h : Completes line text more)
    (h' : Completes line' text more') (hscan : Shell.tokenize line = .complete statements)
    (hscan' : Shell.tokenize line' = .complete statements')
    (hlines : more ++ rest = more' ++ rest') : line = line' ∧ more = more' ∧ rest = rest' := by
  induction more generalizing text more' with
  | nil =>
    obtain rfl : text = line := h
    cases more' with
    | nil => exact ⟨h', rfl, hlines⟩
    | cons l' more' => cases hscan.symm.trans h'.1
  | cons l more ih =>
    cases more' with
    | nil =>
      obtain rfl : text = line' := h'
      cases hscan'.symm.trans h.1
    | cons l' more' =>
      obtain ⟨rfl, htail⟩ := List.cons_eq_cons.1 hlines
      obtain ⟨hline, rfl, hrest⟩ := ih h.2 h'.2 htail
      exact ⟨hline, rfl, hrest⟩

/-- A command that its own lines make up. -/
def IsJoined (line : String) : Prop :=
  ∃ first rest, Text.lines line = first :: rest ∧ Completes line (Shell.firstLine first) rest

/-- A command that is read as itself and then stands for the outline. -/
structure ReadsAs (known : String → Bool) (line : String) (o : Outline) : Prop where
  bare : ¬IsBracketText line
  trimmed : Text.trimmed line = line
  joined : IsJoined line
  placed : ∃ statements, Shell.tokenize line = .complete statements ∧
    ∀ parallel, Placement.ofCommand line statements parallel = .items [.ofLine line]
  settled : (Item.ofLine line).Settled known
  stands : ∀ t, Represents known t o (.ofLine line)

namespace ReadsAs

variable {known : String → Bool} {line : String} {o : Outline}

theorem tokenize_ne (h : ReadsAs known line o) : Shell.tokenize line ≠ .complete [] := by
  intro hscan
  obtain ⟨statements, hstatements, hplaced⟩ := h.placed
  obtain rfl := Shell.Outcome.complete.inj (hscan.symm.trans hstatements)
  have := hplaced false
  simp [Placement.ofCommand] at this

theorem toList_ne_nil (h : ReadsAs known line o) : line.toList ≠ [] := by
  intro hnil
  apply h.tokenize_ne
  unfold Shell.tokenize
  rw [hnil]
  rfl

theorem trim_eq (h : ReadsAs known line o) : Text.trim line.toList = line.toList := by
  rw [← Text.toList_trimmed, h.trimmed]

theorem not_complete_nil (h : ReadsAs known line o) {text : String}
    (htext : text = line ∨ Shell.tokenize text = .unfinished) :
    Shell.tokenize text ≠ .complete [] := by
  rcases htext with rfl | htext
  · exact h.tokenize_ne
  · rw [htext]
    exact Shell.Outcome.noConfusion

theorem head_not_blank (h : ReadsAs known line o) :
    ∀ c, line.toList.head? = some c → isBlank c = false := by
  intro c hc
  rw [← h.trim_eq] at hc
  exact Text.head?_trim_not_blank hc

theorem lines_eq (h : ReadsAs known line o) : Text.lines line = physicalLines line := by
  apply Text.lines_eq_physicalLines h.toList_ne_nil
  intro c hc
  rw [← h.trim_eq] at hc
  exact Text.getLast?_trim_not_blank hc

/-- The lines of the command behind an indent, which goes to the first of them. -/
theorem exists_lines (h : ReadsAs known line o) {indent : String} (hindent : '\n' ∉ indent.toList) :
    ∃ first rest, physicalLines (indent ++ line) = (indent ++ first) :: rest ∧
      '\n' ∉ first.toList ∧ Completes line (Shell.firstLine first) rest := by
  obtain ⟨first, rest, hfirst, hwhole⟩ :=
    Text.physicalLines_indent hindent h.toList_ne_nil h.head_not_blank
  obtain ⟨first', rest', hlines, hcompletes⟩ := h.joined
  have hboth := h.lines_eq
  rw [hlines, hfirst] at hboth
  obtain ⟨rfl, rfl⟩ := List.cons_eq_cons.1 hboth
  have hmem : first' ∈ Text.lines line := by
    rw [hlines]
    exact List.mem_cons_self
  exact ⟨first', rest', hwhole, Text.lineFeed_not_mem_of_mem_lines hmem, hcompletes⟩

/-- Behind an indent the first line begins a command: it is no bracket, no blank line and no
comment, since these are commands by themselves, and no commands that are read as items. -/
theorem startsCommand (h : ReadsAs known line o) {indent first : String}
    (hindent : ∀ c ∈ indent.toList, isBlank c = true) (hfeed : '\n' ∉ first.toList)
    {rest : List String} (hcompletes : Completes line (Shell.firstLine first) rest) :
    Nest.StartsCommand (indent ++ first) := by
  have hfirst : Shell.firstLine first = line ∨
      Shell.tokenize (Shell.firstLine first) = .unfinished := by
    cases rest with
    | nil => exact .inl hcompletes
    | cons l rest => exact .inr hcompletes.1
  have hsame : Text.trim (indent ++ first).toList = (Shell.firstLine first).toList := by
    rw [String.toList_append, Text.trim_append_of_blank hindent]
    exact (Text.toList_trimmed first).symm
  have hbare : ¬IsBracketText (Text.trimmed (indent ++ first)) := by
    unfold Text.trimmed
    rw [hsame, String.ofList_toList]
    rcases hfirst with hfirst | hfirst
    · rw [hfirst]
      exact h.bare
    · exact not_isBracketText_of_unfinished hfirst
  refine ⟨rightBracket?_eq_none hbare, leftBracket?_eq_none hbare, ?_⟩
  rintro (hempty | hcomment)
  · unfold isEmptyLine at hempty
    rw [hsame, List.isEmpty_iff] at hempty
    exact h.not_complete_nil hfirst (by unfold Shell.tokenize; rw [hempty]; rfl)
  · have hhead : (Shell.firstLine first).toList.head? = some '#' := by
      rw [← hsame]
      exact Text.head?_trimEnd (of_decide_eq_true hcomment) (by decide)
    obtain ⟨cs, hcs⟩ := List.head?_eq_some_iff.1 hhead
    have hmem : '\n' ∉ cs := by
      intro hmem
      apply hfeed
      apply Text.mem_of_mem_trim
      rw [← Text.toList_trimmed]
      show '\n' ∈ (Shell.firstLine first).toList
      rw [hcs]
      exact List.mem_cons_of_mem _ hmem
    exact h.not_complete_nil hfirst (by unfold Shell.tokenize; rw [hcs, Shell.scan_comment hmem])

end ReadsAs

/-! ## Commands in blocks -/

namespace Nest

variable {n : Nest} {t : Table} {line l text : String} {rest : List String}

theorem follows_of_completes {statements : List Shell.Statement} (hreads : n.Reads l text)
    (hcompletes : Completes line text rest) (hscan : Shell.tokenize line = .complete statements) :
    n.Follows (l :: rest) t
      ⟨n.inner.append
        ((Placement.ofCommand line statements n.inner.bracket.isParallel).itemsIn t), n.outer, none⟩
      ((Placement.ofCommand line statements n.inner.bracket.isParallel).addTo t) := by
  induction rest generalizing n l text with
  | nil =>
    obtain rfl : text = line := hcompletes
    exact .cons (.command text statements hreads hscan) (.nil _ _)
  | cons l' rest ih =>
    obtain ⟨hunfinished, hmore⟩ := hcompletes
    have hnext : ({ n with command := some text } : Nest).Reads l' (Shell.joinLine text l') :=
      .inl ⟨text, rfl, rfl⟩
    exact .cons (.unfinished text hreads hunfinished) (ih hnext hmore)

theorem follows_completes {x : Item} (hreads : n.Reads l text)
    (hcompletes : Completes line text rest)
    (hplaced : ∃ statements, Shell.tokenize line = .complete statements ∧
      ∀ parallel, Placement.ofCommand line statements parallel = .items [x]) :
    n.Follows (l :: rest) t ⟨n.inner.append [x], n.outer, none⟩ t := by
  obtain ⟨statements, hscan, hitems⟩ := hplaced
  have hfollows := follows_of_completes (t := t) hreads hcompletes hscan
  rw [hitems] at hfollows
  exact hfollows

/-- **Commands.** A command that is read as itself adds its item to the innermost block, at any
indent it is written with. -/
theorem follows_command {known : String → Bool} {o : Outline} (h : ReadsAs known line o)
    {indent : String} (hindent : ∀ c ∈ indent.toList, isBlank c = true)
    (hfeed : '\n' ∉ indent.toList) (hcommand : n.command = none) :
    n.Follows (physicalLines (indent ++ line)) t
      ⟨n.inner.append [.ofLine line], n.outer, none⟩ t := by
  obtain ⟨first, rest, hlines, hfirst, hcompletes⟩ := h.exists_lines hfeed
  have hsame : Shell.firstLine (indent ++ first) = Shell.firstLine first := by
    unfold Shell.firstLine Text.trimmed
    rw [String.toList_append, Text.trim_append_of_blank hindent]
  rw [hlines]
  refine follows_completes (.inr ⟨hcommand, h.startsCommand hindent hfirst hcompletes, ?_⟩)
    hcompletes h.placed
  exact hsame.symm

end Nest

end Runbook.Document
