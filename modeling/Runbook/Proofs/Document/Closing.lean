import Runbook.Proofs.Document.Command
import Runbook.Proofs.Document.Each
import Runbook.Proofs.Document.Readback
import Runbook.Proofs.Text.Weight

/-!
# Blocks that come out with a command

When the lines of a command, read in a block of their own, end with the block and it holds that one
command, then the command is read as itself. The argument is about length: a command text is no
longer than the lines it was joined from, so only a text that takes in all lines of the command can
be the command (`Nest.Closes.short`, `Nest.Closes.completes`).
-/

namespace Runbook

open Document
open Text (isBlank weight weights physicalLines)

/-- A command below a length, a call, or a reference to the table from an index on. -/
def Item.Short (start length : Nat) (x : Item) : Prop :=
  match x.action with
  | .shell line _ _ => line.toList.length < length
  | .call _ _ => True
  | .block i => start ≤ i

theorem Item.short_ofStatements {start length : Nat} {line : String}
    (statements : List Shell.Statement) (h : line.toList.length < length) :
    (Item.ofStatements line statements).Short start length := by
  obtain ⟨head, words, haction⟩ := exists_action_ofStatements line statements
  unfold Short
  rw [haction]
  exact h

theorem eachPlaced_short {start length : Nat} {text : String} (h : text.toList.length < length) :
    EachPlaced (Item.Short start length) text := by
  intro statements hscan
  refine ⟨fun _ => Item.short_ofStatements statements h, fun s hs => ?_⟩
  have hle := (Shell.isInfix_of_tokenize hscan s hs).length_le
  exact Nat.lt_of_le_of_lt hle h

namespace Document

namespace Nest

/-! ## Lines up to the end of a block -/

/-- Lines of which one ends the outermost block. -/
inductive Closes : Nest → Table → List String → Block → Table → Prop
  | last {n : Nest} {t t' : Table} {line : String} {lines : List String} {b : Block}
    (hmove : n.Moves line t (.closed b t')) : Closes n t (line :: lines) b t'
  | next {n n' : Nest} {t t' t'' : Table} {line : String} {lines : List String} {b : Block}
    (hmove : n.Moves line t (.inside n' t')) (hrest : Closes n' t' lines b t'') :
    Closes n t (line :: lines) b t''

variable {n n' : Nest} {t t' : Table} {line text : String} {lines : List String} {b : Block}
  {start length : Nat}

theorem Moves.block_eq (h : n.Moves line t (.closed b t')) :
    n.command = none ∧ n.outer = [] ∧ b = n.inner.block ∧ t' = t := by
  cases h with
  | closing hcommand houter => exact ⟨hcommand, houter, rfl, rfl⟩

theorem Closes.of_singleton (h : n.Closes t [line] b t') :
    n.command = none ∧ n.outer = [] ∧ b = n.inner.block ∧ t' = t := by
  cases h with
  | last hmove => exact hmove.block_eq
  | next _ hrest => cases hrest

end Nest

namespace State

variable {c : Setting} {file : String} {s u : State}

/-- Where a block ends does not depend on what was open when it began. -/
theorem result_finishBody_enter (s : State) (owner : Option Declaration) (m : Mode) (b : Block)
    (t t' : Table) :
    ((((s.withTable t').enter m).withTable t).finishBody owner b).result =
      ((s.withTable t).finishBody owner b).result := by
  cases owner <;> rfl

/-- Lines that lead out of a block end it, and the rest of them is read behind it. -/
theorem exists_closes_of_run {owner : Option Declaration} {lines : List String} {n : Nest} {k : Nat}
    (h : (s.run c file k lines).result = .ok u) (hmode : s.mode = .body owner n)
    (hidle : u.mode = .idle) :
    ∃ b t v k' rest, n.Closes s.pipeline.blocks lines b t ∧
      ((s.withTable t).finishBody owner b).result = .ok v ∧
      (v.run c file k' rest).result = .ok u := by
  induction lines generalizing s n k with
  | nil =>
    obtain rfl := Except.ok.inj h
    cases hmode.symm.trans hidle
  | cons line lines ih =>
    obtain ⟨v, hmove, hrun⟩ := run_cons_ok.1 h
    rcases hmove.of_body hmode with ⟨n', t, hline, rfl⟩ | ⟨b, t, hline, hfinish⟩
    · obtain ⟨b, t', v, k', rest, hcloses, hfinish, hbehind⟩ := ih hrun rfl
      rw [result_finishBody_enter] at hfinish
      exact ⟨b, t', v, k', rest, .next hline hcloses, hfinish, hbehind⟩
    · exact ⟨b, t, v, k + 1, lines, .last hline, hfinish, hrun⟩

end State

namespace Nest

variable {n n' : Nest} {t t' : Table} {line text : String} {lines : List String} {b : Block}
  {start length : Nat}

/-! ## Lengths -/

/-- What an open command passes on. -/
def load (n : Nest) : Nat :=
  (n.command.map Shell.carried).getD 0

theorem Reads.length_eq (h : n.Reads line text) :
    text.toList.length + 1 = n.load + weight line := by
  unfold load
  rcases h with ⟨u, hcommand, rfl⟩ | ⟨hcommand, -, rfl⟩
  · rw [hcommand]
    exact Shell.length_joinLine u line
  · rw [hcommand, Shell.length_firstLine]
    exact (Nat.zero_add _).symm

theorem Moves.load_le (h : n.Moves line t (.inside n' t')) : n'.load ≤ n.load + weight line := by
  cases h with
  | skip => exact Nat.le_add_right _ _
  | unfinished text hreads hscan =>
    have hlength := hreads.length_eq
    have hcarried := Shell.carried_le text
    show Shell.carried text ≤ _
    omega
  | command => exact Nat.zero_le _
  | opening => exact Nat.zero_le _
  | nested => exact Nat.zero_le _

theorem Closes.size_le (h : n.Closes t lines b t') : t.size ≤ t'.size := by
  induction h with
  | last hmove => exact hmove.size_le
  | next hmove _ ih => exact Nat.le_trans hmove.size_le ih

/-- **Short commands.** When lines up to the last one are too light for a command of some length,
the block they lead to holds none, and neither do the blocks that joined the table. -/
theorem Closes.short {last : String} (h : n.Closes t (lines ++ [last]) b t')
    (hn : n.Each (Item.Short start length)) (ht : Table.Each (Item.Short start length) start t)
    (hsize : start ≤ t.size) (hload : n.load + weights lines ≤ length) :
    (∀ x ∈ b.items, x.Short start length) ∧ Table.Each (Item.Short start length) start t' := by
  induction lines generalizing n t with
  | nil =>
    obtain ⟨-, -, rfl, rfl⟩ := h.of_singleton
    exact ⟨Frame.each_block (hn _ List.mem_cons_self), ht⟩
  | cons line lines ih =>
    rw [Text.weights_cons] at hload
    have hplaced : ∀ text, n.Reads line text → EachPlaced (Item.Short start length) text :=
      fun text hreads => eachPlaced_short (by have := hreads.length_eq; omega)
    cases h with
    | last hmove =>
      obtain ⟨-, -, rfl, rfl⟩ := hmove.block_eq
      exact ⟨Frame.each_block (hn _ List.mem_cons_self), ht⟩
    | next hmove hrest =>
      obtain ⟨hn', ht'⟩ := hmove.each hplaced hsize hn ht
      have hle := hmove.load_le
      exact ih hrest hn' ht' (Nat.le_trans hsize hmove.size_le) (by omega)

end Nest

/-! ## Ends of command texts -/

/-- A command text that is trimmed, or ends in a line feed that is inside quotes. -/
structure Neat (text : String) : Prop where
  nonempty : text.toList ≠ []
  head : ∀ c, text.toList.head? = some c → isBlank c = false
  last : (∀ c, text.toList.getLast? = some c → isBlank c = false) ∨
    ∃ u, Shell.tokenize u = .unfinished ∧ u.toList.getLast? ≠ some '\\' ∧ text = u ++ "\n"

theorem Neat.trimmed {text : String} (h : Neat text) {statements : List Shell.Statement}
    (hscan : Shell.tokenize text = .complete statements) : Text.trimmed text = text := by
  rcases h.last with hlast | ⟨u, hunfinished, hlast, rfl⟩
  · unfold Text.trimmed
    rw [Text.trim_eq_self h.head hlast, String.ofList_toList]
  · exact absurd hscan (Shell.not_complete_lineFeed hunfinished hlast statements)

theorem neat_firstLine {line : String} (h : Nest.StartsCommand line) :
    Neat (Shell.firstLine line) := by
  have hline : (Shell.firstLine line).toList = Text.trim line.toList := Text.toList_trimmed line
  constructor
  · intro hnil
    apply h.2.2
    left
    unfold isEmptyLine
    rw [← hline, hnil]
    rfl
  · intro c hc
    rw [hline] at hc
    exact Text.head?_trim_not_blank hc
  · left
    intro c hc
    rw [hline] at hc
    exact Text.getLast?_trim_not_blank hc

theorem Neat.joinLine {text : String} (h : Neat text)
    (hscan : Shell.tokenize text = .unfinished) (hlast : text.toList.getLast? ≠ some '\\')
    (line : String) : Neat (Shell.joinLine text line) := by
  have hjoin : Shell.joinLine text line = text ++ "\n" ++ Text.trimmed line := by
    unfold Shell.joinLine
    rw [if_neg hlast]
  have hlist : (Shell.joinLine text line).toList =
      text.toList ++ ('\n' :: Text.trim line.toList) := by
    rw [hjoin]
    simp
  constructor
  · rw [hlist]
    simp
  · intro c hc
    rw [hlist, List.head?_append_of_ne_nil _ h.nonempty] at hc
    exact h.head c hc
  · by_cases hline : Text.trim line.toList = []
    · right
      refine ⟨text, hscan, hlast, ?_⟩
      rw [hjoin, Text.trimmed, hline]
      exact String.append_empty
    · left
      intro c hc
      rw [hlist, List.getLast?_append_of_ne_nil _ (List.cons_ne_nil _ _),
        List.getLast?_cons_of_ne_nil hline] at hc
      exact Text.getLast?_trim_not_blank hc

namespace Nest

/-! ## The command comes out -/

variable {n n' : Nest} {t t' : Table} {line text : String} {lines : List String} {b : Block}

/-- A line of a command goes on with it or completes it. -/
theorem Moves.of_reads {a : Advance} (h : n.Moves line t a) (hreads : n.Reads line text) :
    (Shell.tokenize text = .unfinished ∧ a = .inside { n with command := some text } t) ∨
      ∃ statements, Shell.tokenize text = .complete statements ∧
        a = .inside
          { n with
            inner := n.inner.append
              ((Placement.ofCommand text statements n.inner.bracket.isParallel).itemsIn t)
            command := none }
          ((Placement.ofCommand text statements n.inner.bracket.isParallel).addTo t) := by
  have hstep : (n.step t ⟨"", 0⟩ line).result = .ok a := step_ok_iff.2 h
  rw [step_of_reads hreads] at hstep
  exact readCommand_ok_iff.1 hstep

/-- A command text that becomes a single item with the text of a command, which is not shorter, is
this command. -/
theorem placed_of_items {command : String} {statements : List Shell.Statement} {parallel : Bool}
    {x : Item} (hscan : Shell.tokenize text = .complete statements)
    (htrimmed : Text.trimmed text = text)
    (hitems : Placement.ofCommand text statements parallel = .items [x])
    (hshell : ∀ l head words, x.action = .shell l head words → l = command)
    (hlength : text.toList.length ≤ command.toList.length) :
    text = command ∧ x = .ofLine text ∧
      ∀ parallel, Placement.ofCommand text statements parallel = .items [.ofLine text] := by
  have hplaced : text = command ∧
      ∀ parallel, Placement.ofCommand text statements parallel = .items [.ofLine text] := by
    unfold Placement.ofCommand at hitems
    split at hitems
    · next hwhole =>
      obtain rfl := List.singleton_inj.1 (Placement.items.inj hitems)
      obtain ⟨head, words, haction⟩ := exists_action_ofStatements text statements
      refine ⟨hshell _ _ _ haction, fun parallel => ?_⟩
      unfold Placement.ofCommand
      rw [if_pos hwhole, ofLine_of_tokenize htrimmed hscan]
    split at hitems
    · cases hitems
    · obtain ⟨s, rfl, rfl⟩ := List.map_eq_singleton_iff.1 (Placement.items.inj hitems)
      have hcommand : s.text = command := hshell s.text s.head s.args rfl
      have hinfix := Shell.isInfix_of_tokenize hscan s List.mem_cons_self
      have htext : s.text = text := by
        apply String.toList_injective
        apply hinfix.eq_of_length_le
        rw [hcommand]
        exact hlength
      exact ⟨htext.symm.trans hcommand, (placed_of_statement hscan htext).2⟩
  refine ⟨hplaced.1, ?_, hplaced.2⟩
  rw [hplaced.2] at hitems
  exact (List.singleton_inj.1 (Placement.items.inj hitems)).symm

theorem ofCommand_of_singleton {statements : List Shell.Statement} {parallel : Bool} {x : Item}
    (h : (Placement.ofCommand text statements parallel).itemsIn t = [x]) :
    Placement.ofCommand text statements parallel = .items [x] ∨
      parallel = true ∧ 1 < statements.length ∧ x = .block t.size ∧
        (Placement.ofCommand text statements parallel).addTo t =
          t.push ⟨statements.map .ofStatement, false⟩ := by
  unfold Placement.ofCommand at h ⊢
  split at h
  · next hwhole =>
    left
    rw [if_pos hwhole]
    exact congrArg Placement.items h
  next hwhole =>
  split at h
  · next hwrapped =>
    right
    rw [if_neg hwhole, if_pos hwrapped]
    exact ⟨hwrapped.1, hwrapped.2, (List.singleton_inj.1 h).symm, rfl⟩
  · next hwrapped =>
    left
    rw [if_neg hwhole, if_neg hwrapped]
    exact congrArg Placement.items h

/-- **Commands that come out.** Lines that weigh no more than a command and lead to a block of this
one command make it up, and it is placed as it is. -/
theorem Closes.completes {command last : String} {rest : List String} {x : Item}
    (h : n.Closes t (line :: (rest ++ [last])) b t') (hreads : n.Reads line text)
    (hneat : Neat text) (hinner : n.inner = .new .sequential) (houter : n.outer = [])
    (hweights : text.toList.length + weights rest ≤ command.toList.length)
    (hlong : ¬((∀ y ∈ b.items, y.Short t.size command.toList.length) ∧
      Table.Each (Item.Short t.size command.toList.length) t.size t'))
    (hitems : b.items = [x])
    (hshell : ∀ l head words, x.action = .shell l head words → l = command) :
    Completes command text rest ∧ Text.trimmed command = command ∧ x = .ofLine command ∧
      ∃ statements, Shell.tokenize command = .complete statements ∧
        ∀ parallel, Placement.ofCommand command statements parallel = .items [.ofLine command] := by
  have hempty := Table.each_size (Item.Short t.size command.toList.length) t
  have hn : n.Each (Item.Short t.size command.toList.length) := by
    intro f hf y hy
    rw [houter, hinner] at hf
    rw [List.mem_singleton.1 hf] at hy
    cases hy
  induction rest generalizing n line text with
  | nil =>
    cases h with
    | last hmove => rcases hmove.of_reads hreads with ⟨-, ha⟩ | ⟨_, -, ha⟩ <;> cases ha
    | next hmove hrest =>
      obtain ⟨hcommand, -, hblock, -⟩ := hrest.of_singleton
      rcases hmove.of_reads hreads with ⟨-, ha⟩ | ⟨statements, hscan, ha⟩
      · obtain ⟨rfl, -⟩ := Advance.inside.inj ha
        cases hcommand
      · obtain ⟨rfl, -⟩ := Advance.inside.inj ha
        rw [hblock, hinner, Frame.block_append, Frame.block_new] at hitems
        rcases ofCommand_of_singleton hitems with hplacement | ⟨hparallel, -⟩
        · have hplaced := placed_of_items hscan (hneat.trimmed hscan) hplacement hshell hweights
          obtain ⟨rfl, hx, hplaced⟩ := hplaced
          exact ⟨rfl, hneat.trimmed hscan, hx, statements, hscan, hplaced⟩
        · cases hparallel
  | cons l rest ih =>
    rw [Text.weights_cons] at hweights
    cases h with
    | last hmove => rcases hmove.of_reads hreads with ⟨-, ha⟩ | ⟨_, -, ha⟩ <;> cases ha
    | next hmove hrest =>
      replace hrest : Nest.Closes _ _ ((l :: rest) ++ [last]) b t' := hrest
      rcases hmove.of_reads hreads with ⟨hunfinished, ha⟩ | ⟨statements, hscan, ha⟩
      · obtain ⟨rfl, rfl⟩ := Advance.inside.inj ha
        by_cases hback : text.toList.getLast? = some '\\'
        · -- The backslash is lost, so the command is too long for the lines that are left.
          refine absurd (hrest.short hn hempty (Nat.le_refl _) ?_) hlong
          have hpos := List.length_pos_of_ne_nil hneat.nonempty
          show Shell.carried text + weights (l :: rest) ≤ _
          rw [Shell.carried, if_pos hback, Text.weights_cons]
          omega
        · have hlength := Shell.length_joinLine text l
          rw [Shell.carried, if_neg hback] at hlength
          obtain ⟨hmore, hcommand⟩ := ih hrest (.inl ⟨text, rfl, rfl⟩)
            (hneat.joinLine hunfinished hback l) hinner houter (by omega) hn
          exact ⟨⟨hunfinished, hmore⟩, hcommand⟩
      · -- The text is complete before the last line, so it is too short.
        have hpos := Text.weight_pos l
        have hplaced : ∀ text', n.Reads line text' →
            EachPlaced (Item.Short t.size command.toList.length) text' := by
          intro text' hreads'
          have hlength := hreads.length_eq
          have hlength' := hreads'.length_eq
          exact eachPlaced_short (by omega)
        obtain ⟨hn', ht'⟩ := hmove.each hplaced (Nat.le_refl _) hn hempty
        refine absurd (hrest.short hn' ht' hmove.size_le ?_) hlong
        obtain ⟨rfl, -⟩ := Advance.inside.inj ha
        show 0 + weights (l :: rest) ≤ _
        rw [Text.weights_cons]
        omega

theorem Moves.of_not_startsCommand (h : n.Moves line t (.inside n' t'))
    (hcommand : n.command = none) (hline : ¬StartsCommand line) :
    n'.load = 0 ∧ ∀ text, ¬n.Reads line text := by
  have hreads : ∀ text, ¬n.Reads line text := by
    rintro text (⟨u, hu, -⟩ | ⟨-, hstarts, -⟩)
    · cases hcommand.symm.trans hu
    · exact hline hstarts
  refine ⟨?_, hreads⟩
  unfold load
  cases h with
  | skip => rw [hcommand]; rfl
  | unfinished text hreads' => exact absurd hreads' (hreads text)
  | command text statements hreads' => exact absurd hreads' (hreads text)
  | opening => rfl
  | nested => rfl

/-- The row of a command at an indent, when the first line of it begins a command: it is no bracket,
and the lines of the command are those of the row. -/
theorem isJoined_of_completes {indent command : String} {rest : List String}
    (hblank : ∀ c ∈ indent.toList, isBlank c = true) (hfeed : '\n' ∉ indent.toList)
    (hrow : physicalLines (indent ++ command) = line :: rest) (hstarts : StartsCommand line)
    (htrimmed : Text.trimmed command = command) (hne : command.toList ≠ [])
    (hcompletes : Completes command (Shell.firstLine line) rest) :
    ¬IsBracketText command ∧ IsJoined command := by
  have htrim : Text.trim command.toList = command.toList := by
    rw [← Text.toList_trimmed, htrimmed]
  constructor
  · rintro ⟨b, rfl | rfl⟩
    · rw [physicalLines_opening hfeed] at hrow
      obtain ⟨rfl, -⟩ := List.cons_eq_cons.1 hrow
      cases hstarts.2.1.symm.trans (leftBracket?_opening hblank)
    · rw [physicalLines_closing hfeed] at hrow
      obtain ⟨rfl, -⟩ := List.cons_eq_cons.1 hrow
      cases hstarts.1.symm.trans (rightBracket?_closing hblank)
  · obtain ⟨first, rest', hfirst, hwhole⟩ := Text.physicalLines_indent hfeed hne (by
      intro c hc
      rw [← htrim] at hc
      exact Text.head?_trim_not_blank hc)
    obtain ⟨rfl, rfl⟩ := List.cons_eq_cons.1 (hrow.symm.trans hwhole)
    refine ⟨first, rest, ?_, ?_⟩
    · rw [Text.lines_eq_physicalLines hne, hfirst]
      intro c hc
      rw [← htrim] at hc
      exact Text.getLast?_trim_not_blank hc
    · unfold Shell.firstLine Text.trimmed at hcompletes ⊢
      rw [String.toList_append, Text.trim_append_of_blank hblank] at hcompletes
      exact hcompletes

/-- **Blocks of one command.** When the row of a command, read in a block of its own, leads to a
block of one item with its text, the command is read as itself. -/
theorem Closes.readsBack_of_items {command last : String} {x : Item}
    (h : (Nest.new .sequential).Closes t (physicalLines ("\t" ++ command) ++ [last]) b t')
    (hlong : ¬((∀ y ∈ b.items, y.Short t.size command.toList.length) ∧
      Table.Each (Item.Short t.size command.toList.length) t.size t'))
    (hitems : b.items = [x])
    (hshell : ∀ l head words, x.action = .shell l head words → l = command) :
    x = .ofLine command ∧
      ∀ known, (Item.ofLine command).promote known = .ok none → ReadsBack known command := by
  have hblank : ∀ c ∈ ("\t" : String).toList, isBlank c = true := by simp [Text.isBlank]
  have hweights := Text.weights_physicalLines_le hblank (by decide) command
  have hnew : (Nest.new .sequential).Each (Item.Short t.size command.toList.length) := each_new _
  have hempty := Table.each_size (Item.Short t.size command.toList.length) t
  cases hrow : physicalLines ("\t" ++ command) with
  | nil =>
    rw [hrow] at h
    replace h : (Nest.new .sequential).Closes t ([] ++ [last]) b t' := h
    exact absurd (h.short hnew hempty (Nat.le_refl _) (Nat.zero_le _)) hlong
  | cons line rest =>
    rw [hrow] at h hweights
    rw [Text.weights_cons] at hweights
    have hfirst := Shell.length_firstLine line
    by_cases hstarts : StartsCommand line
    · have hneat := neat_firstLine hstarts
      obtain ⟨hcompletes, htrimmed, hx, hplaced⟩ := h.completes (.inr ⟨rfl, hstarts, rfl⟩) hneat rfl
        rfl (by omega) hlong hitems hshell
      have hne : command.toList ≠ [] := by
        have hpos := List.length_pos_of_ne_nil hneat.nonempty
        apply List.ne_nil_of_length_pos
        omega
      obtain ⟨hbare, hjoined⟩ := isJoined_of_completes hblank (by decide) hrow hstarts htrimmed hne
        hcompletes
      exact ⟨hx, fun known hstays => ⟨hbare, htrimmed, hjoined.joinsToItself, hplaced, hstays⟩⟩
    · -- The line is no part of the command, and the other lines are too light for it.
      exfalso
      cases h with
      | last hmove =>
        obtain ⟨-, -, rfl, -⟩ := hmove.block_eq
        cases hitems
      | next hmove hrest =>
        obtain ⟨hload, hreads⟩ := hmove.of_not_startsCommand rfl hstarts
        obtain ⟨hn', ht'⟩ := hmove.each (fun text h => absurd h (hreads text)) (Nat.le_refl _) hnew
          hempty
        have hpos := Text.weight_pos line
        exact hlong (Closes.short hrest hn' ht' hmove.size_le (by omega))

end Nest

end Document

end Runbook
