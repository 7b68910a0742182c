import Runbook.Proofs.Document.Recognition
import Runbook.Proofs.Document.Sole

/-!
# Bare commands

Behind the procedures a document may hold the lines of a single command. When its default block
comes out with this command alone, the command is read as itself, and its first line is a command to
a reader outside of any block (`Ending.readsBack_of_bare`). As inside brackets the argument is about
length, now for every kind of line that a document can have (`State.short_of_run`).
-/

namespace Runbook.Document

open Text (isBlank weight weights physicalLines)

theorem startsCommand_of_classify {line : String} (h : classify line = .command) :
    Nest.StartsCommand line := by
  obtain ⟨-, -, hleft, hright, hempty, hcomment, -⟩ := classify_eq_command_iff.1 h
  refine ⟨hright, hleft, ?_⟩
  rintro (hline | hline)
  · cases hempty.symm.trans hline
  · cases hcomment.symm.trans hline

namespace State

variable {c : Setting} {file : String} {pos : Position} {line text : String}
  {lines rest : List String} {s s' t u : State} {start length k : Nat}

/-! ## Lengths -/

/-- What an open command passes on. -/
def load (s : State) : Nat :=
  match s.mode with
  | .command text => Shell.carried text
  | .body _ n => n.load
  | _ => 0

theorem Reads.length_eq (h : s.Reads line s' text) :
    text.toList.length + 1 = s.load + weight line := by
  unfold load
  rcases h with ⟨u, hmode, -, rfl⟩ | ⟨hmode, -, -, rfl⟩
  · rw [hmode]
    exact Shell.length_joinLine u line
  · rw [hmode, Shell.length_firstLine]
    exact (Nat.zero_add _).symm

theorem Takes.length_eq (h : s.Takes line text) :
    text.toList.length + 1 = s.load + weight line := by
  rcases h with ⟨s', hreads⟩ | ⟨owner, n, hmode, hreads⟩
  · exact hreads.length_eq
  · unfold load
    rw [hmode]
    exact hreads.length_eq

theorem Moves.load_le (h : s.Moves c pos line t) : t.load ≤ s.load + weight line := by
  cases h with
  | skip => exact Nat.le_add_right _ _
  | included target vars => exact Nat.le_add_right _ _
  | header name bracket =>
    cases bracket <;> exact Nat.zero_le _
  | opening => exact Nat.zero_le _
  | annotates => exact Nat.le_add_right _ _
  | malformed => exact Nat.le_add_right _ _
  | assigns => exact Nat.le_add_right _ _
  | unfinished s' text hreads =>
    have hlength := hreads.length_eq
    have hcarried := Shell.carried_le text
    show Shell.carried text ≤ _
    omega
  | command => exact Nat.zero_le _
  | await => exact Nat.le_add_right _ _
  | begin => exact Nat.zero_le _
  | inside owner n n' u hmode hmove =>
    unfold load
    rw [hmode]
    exact hmove.load_le
  | closing => exact Nat.zero_le _
  | procedure => exact Nat.zero_le _

/-- Between entries a line that is no command opens none. -/
theorem Moves.of_not_command (h : s.Moves c pos line t) (hmode : s.mode = .idle)
    (hline : classify line ≠ .command) : t.load = 0 ∧ ∀ text, ¬s.Takes line text := by
  have hreads : ∀ s' text, ¬s.Reads line s' text := by
    rintro s' text (⟨u, hu, -⟩ | ⟨-, hcommand, -⟩)
    · cases hmode.symm.trans hu
    · exact hline hcommand
  constructor
  · have hload : s.load = 0 := by
      unfold load
      rw [hmode]
    cases h with
    | skip => exact hload
    | included => exact hload
    | header name bracket => cases bracket <;> rfl
    | opening => rfl
    | annotates => exact hload
    | malformed => exact hload
    | assigns => exact hload
    | unfinished s' text h => exact absurd h (hreads s' text)
    | command => rfl
    | await => exact hload
    | begin => rfl
    | inside owner n n' u h => cases hmode.symm.trans h
    | closing => rfl
    | procedure => rfl
  · rintro text (⟨s', h⟩ | ⟨owner, n, h, -⟩)
    · exact hreads s' text h
    · cases hmode.symm.trans h

theorem Moves.size_le (h : s.Moves c pos line t) :
    s.pipeline.blocks.size ≤ t.pipeline.blocks.size := by
  apply Nat.le_of_not_lt
  intro hlt
  have hkeep := h.getElem?_blocks (Array.getElem?_eq_getElem hlt)
  exact Nat.lt_irrefl _ (Array.getElem?_eq_some_iff.1 hkeep).1

theorem Moves.short (h : s.Moves c pos line t) (hs : s.Each (Item.Short start length) start)
    (hsize : start ≤ s.pipeline.blocks.size)
    (hload : ∀ text, s.Takes line text → text.toList.length < length) :
    t.Each (Item.Short start length) start :=
  h.each (fun text htakes => eachPlaced_short (hload text htakes))
    (fun _ hi => Nat.le_trans hsize hi) hs

/-- **Short commands.** Lines that are too light for a command of some length add none. -/
theorem short_of_run (h : (s.run c file k lines).result = .ok u)
    (hs : s.Each (Item.Short start length) start) (hsize : start ≤ s.pipeline.blocks.size)
    (hload : s.load + weights lines ≤ length) : u.Each (Item.Short start length) start := by
  induction lines generalizing s k with
  | nil =>
    obtain rfl := Except.ok.inj h
    exact hs
  | cons line lines ih =>
    rw [Text.weights_cons] at hload
    obtain ⟨t, hmove, hrun⟩ := run_cons_ok.1 h
    have hle := hmove.load_le
    refine ih hrun (hmove.short hs hsize fun text htakes => ?_)
      (Nat.le_trans hsize hmove.size_le) (by omega)
    have hlength := htakes.length_eq
    omega

/-! ## The command comes out -/

/-- The lines make up a command text, which is complete behind the last one and becomes the items
that the load adds. -/
structure Finishes (s : State) (text : String) (rest : List String) (length : Nat) (u : State)
    (whole : String) (statements : List Shell.Statement) (parallel : Bool) : Prop where
  completes : Completes whole text rest
  scan : Shell.tokenize whole = .complete statements
  neat : Neat whole
  length_le : whole.toList.length ≤ length
  items : u.items = ((Placement.ofCommand whole statements parallel).itemsIn
    s.pipeline.blocks).reverse ++ s.items
  blocks : u.pipeline.blocks =
    (Placement.ofCommand whole statements parallel).addTo s.pipeline.blocks

theorem Reads.items_eq (h : s.Reads line s' text) :
    s'.items = s.items ∧ s'.pipeline.blocks = s.pipeline.blocks := by
  rcases h with ⟨-, -, rfl, -⟩ | ⟨-, -, rfl, -⟩ <;> exact ⟨rfl, rfl⟩

/-- **Commands that come out.** Lines that begin with a command and weigh no more than some length
make it up, when they add an item that is not short. -/
theorem exists_finishes_of_run (h : (s.run c file k (line :: rest)).result = .ok u)
    (hreads : s.Reads line s' text) (hneat : Neat text) (hidle : u.mode = .idle)
    (hs : s.Each (Item.Short start length) start) (hsize : start ≤ s.pipeline.blocks.size)
    (hweights : text.toList.length + weights rest ≤ length)
    (hlong : ¬u.Each (Item.Short start length) start) :
    ∃ whole statements parallel, s.Finishes text rest length u whole statements parallel := by
  induction rest generalizing s s' text line k with
  | nil =>
    obtain ⟨v, hmove, hrun⟩ := run_cons_ok.1 h
    obtain rfl := Except.ok.inj hrun
    obtain ⟨hitems, hblocks⟩ := hreads.items_eq
    rcases hmove.of_reads hreads with ⟨-, rfl⟩ | ⟨statements, b, hscan, -, rfl⟩
    · cases hidle
    · refine ⟨text, statements, b.parallel, rfl, hscan, hneat, hweights, ?_, ?_⟩
      · rw [← hitems, ← hblocks]
        rfl
      · rw [← hblocks]
        rfl
  | cons l rest ih =>
    rw [Text.weights_cons] at hweights
    obtain ⟨v, hmove, hrun⟩ := run_cons_ok.1 h
    obtain ⟨hitems, hblocks⟩ := hreads.items_eq
    have hpos := Text.weight_pos l
    have hv : v.Each (Item.Short start length) start := by
      refine hmove.short hs hsize fun text' htakes => ?_
      have hlength := hreads.length_eq
      have hlength' := htakes.length_eq
      omega
    have hvsize := Nat.le_trans hsize hmove.size_le
    rcases hmove.of_reads hreads with ⟨hunfinished, rfl⟩ | ⟨statements, b, hscan, -, rfl⟩
    · by_cases hback : text.toList.getLast? = some '\\'
      · -- The backslash is lost, so the command is too long for the lines that are left.
        refine absurd (short_of_run hrun hv hvsize ?_) hlong
        have hpos := List.length_pos_of_ne_nil hneat.nonempty
        show Shell.carried text + weights (l :: rest) ≤ _
        rw [Shell.carried, if_pos hback, Text.weights_cons]
        omega
      · have hlength := Shell.length_joinLine text l
        rw [Shell.carried, if_neg hback] at hlength
        obtain ⟨whole, statements, parallel, hfinishes⟩ := ih hrun (.inl ⟨text, rfl, rfl, rfl⟩)
          (hneat.joinLine hunfinished hback l) hv hvsize (by omega)
        refine ⟨whole, statements, parallel, ⟨hunfinished, hfinishes.completes⟩, hfinishes.scan,
          hfinishes.neat, hfinishes.length_le, ?_, ?_⟩
        · rw [← hitems, ← hblocks]
          exact hfinishes.items
        · rw [← hblocks]
          exact hfinishes.blocks
    · -- The text is complete before the last line, so it is too short.
      refine absurd (short_of_run hrun hv hvsize ?_) hlong
      show 0 + weights (l :: rest) ≤ _
      rw [Text.weights_cons]
      omega

end State

/-! ## The command of the document -/

namespace Ending

variable {c : Setting} {file : String} {lines : List String} {line : String} {s u : State}
  {d : Loaded} {x : Item} {start : Nat}

/-- The default block runs no command of full length when the items of the load are short. -/
theorem not_each_short (h : Ending c file lines line s u d) (hstart : 1 ≤ start)
    (hsole : u.items = [x])
    (hx : d.pipeline.check.1.ItemRuns d.pipeline.procedures.contains line x) :
    ¬u.Each (Item.Short start line.toList.length) start := by
  intro heach
  have hshort : x.Short start line.toList.length := heach.items x (by simp [hsole])
  unfold Item.Short at hshort
  rcases hx with ⟨⟨head, words, haction⟩, -⟩ | ⟨i, o, haction, ho, hline⟩
  · rw [haction] at hshort
    exact Nat.lt_irrefl _ hshort
  · rw [haction] at hshort
    exact h.forest.not_shell_of_short hstart heach.table
      (fun j b hj hb => h.getElem?_check ((h.getElem?_blocks hj).trans hb)) i hshort
      (h.lt_size_of_outline ho) ho hline

/-- A command that becomes the only item of the default block, which runs a command that is not
shorter, is this command. It is no block of statements: such a block has several. -/
theorem placed_of_finishes (h : Ending c file lines line s u d) {text whole : String}
    {rest : List String} {statements : List Shell.Statement} {parallel : Bool}
    (hfinishes : s.Finishes text rest line.toList.length u whole statements parallel)
    (hsole : u.items = [x])
    (hx : d.pipeline.check.1.ItemRuns d.pipeline.procedures.contains line x) :
    whole = line ∧ x = .ofLine line ∧
      ∀ parallel, Placement.ofCommand line statements parallel = .items [.ofLine line] := by
  have hplaced : (Placement.ofCommand whole statements parallel).itemsIn s.pipeline.blocks =
      [x] := by
    have hsame := hfinishes.items.symm.trans hsole
    rw [h.items, List.append_nil] at hsame
    rwa [List.reverse_eq_iff, List.reverse_singleton] at hsame
  rcases Nest.ofCommand_of_singleton hplaced with hone | ⟨-, hmany, rfl, htable⟩
  · have htrimmed := hfinishes.neat.trimmed hfinishes.scan
    obtain ⟨rfl, hline⟩ := Nest.placed_of_items hfinishes.scan htrimmed hone
      (fun l head words => hx.eq_of_shell) hfinishes.length_le
    exact ⟨rfl, hline⟩
  · rcases hx with ⟨⟨head, words, haction⟩, -⟩ | ⟨i, o, haction, ho, hline⟩
    · cases haction
    · obtain rfl := Action.block.inj haction
      have hblock : d.pipeline.blocks[s.pipeline.blocks.size]? =
          some ⟨statements.map .ofStatement, false⟩ := by
        rw [h.getElem?_blocks h.nonempty, hfinishes.blocks, htable, Array.getElem?_push_size]
      obtain ⟨y, hone, -⟩ :=
        h.forest.ranked.exists_item_of_shell (h.getElem?_check hblock) ho hline
      have hlength := congrArg List.length hone
      rw [List.length_map, List.length_singleton] at hlength
      omega

/-- **Bare commands.** A document that ends with the lines of a command, and whose default block
runs this command alone, reads the command as itself, from its first line on. -/
theorem readsBack_of_bare (h : Ending c file (physicalLines line) line s u d) :
    ReadsBack d.pipeline.procedures.contains line ∧
      ∀ first ∈ (physicalLines line).head?, classify first = .command := by
  obtain ⟨k, hrun⟩ := h.run
  obtain ⟨last, hfinish⟩ := h.finish
  obtain ⟨hidle, -, -⟩ := State.finish_ok_iff.1 hfinish
  obtain ⟨x, hsole, hx⟩ := h.exists_item
  have hlong := h.not_each_short h.nonempty hsole hx
  have hs : s.Each (Item.Short s.pipeline.blocks.size line.toList.length)
      s.pipeline.blocks.size := by
    refine ⟨by simp [h.items], fun owner n hbody => ?_, Table.each_size _ _⟩
    cases h.mode.symm.trans hbody
  have hblank : ∀ c ∈ ("" : String).toList, isBlank c = true := by simp
  have hfeed : '\n' ∉ ("" : String).toList := by simp
  have hweights := Text.weights_physicalLines_le hblank hfeed line
  rw [String.empty_append] at hweights
  cases hrow : physicalLines line with
  | nil =>
    rw [hrow] at hrun
    obtain rfl := Except.ok.inj hrun
    cases h.items.symm.trans hsole
  | cons first rest =>
    rw [hrow] at hrun hweights
    rw [Text.weights_cons] at hweights
    by_cases hclass : classify first = .command
    · refine ⟨?_, fun first' hfirst => by rw [← Option.some.inj hfirst]; exact hclass⟩
      have hstarts := startsCommand_of_classify hclass
      have hlength := Shell.length_firstLine first
      obtain ⟨whole, statements, parallel, hfinishes⟩ := State.exists_finishes_of_run hrun
        (.inr ⟨h.mode, hclass, rfl, rfl⟩) (neat_firstLine hstarts) hidle hs (Nat.le_refl _)
        (by omega) hlong
      obtain ⟨rfl, rfl, hplaced⟩ := h.placed_of_finishes hfinishes hsole hx
      have htrimmed := hfinishes.neat.trimmed hfinishes.scan
      obtain ⟨hbare, hjoined⟩ := Nest.isJoined_of_completes hblank hfeed
        (by rw [String.empty_append]; exact hrow) hstarts htrimmed hfinishes.neat.nonempty
        hfinishes.completes
      refine ⟨hbare, htrimmed, hjoined.joinsToItself, ⟨statements, hfinishes.scan, hplaced⟩, ?_⟩
      rcases hx with hcommand | ⟨i, o, haction, -⟩
      · obtain ⟨parallel, hdefault⟩ := h.exists_default
        have hmem := Array.mem_of_getElem? hdefault
        exact hcommand.promote_eq
          (Pipeline.settled_of_check h.check _ hmem _ (by simp [hsole]))
      · obtain ⟨head, words, hshell⟩ := exists_action_ofLine whole
        cases haction.symm.trans hshell
    · -- The line is no part of the command, and the other lines are too light for it.
      obtain ⟨v, hmove, hrest⟩ := State.run_cons_ok.1 hrun
      obtain ⟨hload, htakes⟩ := hmove.of_not_command h.mode hclass
      have hpos := Text.weight_pos first
      exact absurd (State.short_of_run hrest
        (hmove.short hs (Nat.le_refl _) fun text htext => absurd htext (htakes text)) hmove.size_le
        (by omega)) hlong

end Ending

end Runbook.Document
