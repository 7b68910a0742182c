import Runbook.Proofs.Document.FirstRow
import Runbook.Proofs.Document.Provenance
import Runbook.Proofs.Document.Stored
import Runbook.Proofs.Pipeline.Embedding
import Runbook.Proofs.Pipeline.Rewriting

/-!
# A bare item as it is written

A default block with a single command or call is written bare. The command was read at some lines of
the document (`exists_command_of_sole`), the first of which is a command. What is written is one as
well where the first row of the joined lines is, with one exception: a bracket or a header that a `;`
stood behind (`bareRow_of_load`). The joined row is the first line itself, unless the command goes on
behind a backslash there.
-/

namespace Runbook

open Text (trim trimEnd trimStart trimmed isBlank firstRow)

/-! ## The command of a single item -/

namespace Placement

variable {x : Item} {text : String} {statements : List Shell.Statement} {parallel : Bool}

theorem commands_of_itemsIn {p : Placement} {t : Table} (h : p.itemsIn t = [x])
    (hx : x.blockIndex? = none) : p.commands = [x] := by
  cases p with
  | items xs => exact h
  | wrapped b =>
    obtain rfl := List.singleton_inj.1 h
    cases hx

/-- A command that is a single item has a single statement, or it is stored as a whole. -/
theorem ofCommand_commands_eq (h : (ofCommand text statements parallel).commands = [x]) :
    1 < statements.length ∧ x = .ofStatements text statements ∨
      ∃ s, statements = [s] ∧ x = .ofStatement s := by
  rcases Document.mem_commands_ofCommand (h ▸ List.mem_singleton_self x) with
    ⟨⟨hmany, -⟩, rfl⟩ | ⟨hsplit, -⟩
  · exact .inl ⟨hmany, rfl⟩
  · right
    have hmap : statements.map .ofStatement = [x] := by
      unfold ofCommand at h
      rw [if_neg hsplit] at h
      split at h <;> exact h
    obtain ⟨s, rfl, rfl⟩ := List.map_eq_singleton_iff.1 hmap
    exact ⟨s, rfl, rfl⟩

end Placement

namespace Document

namespace State

variable {c : Setting} {file : String} {pos : Position} {s t u : State} {x : Item} {part : Part}
  {k : Nat} {lines : List String} {es : List Entry}

theorem Adds.items (h : s.Adds c pos part t) : t.items = s.items ∨ ∃ el, part = .element el ∧
    t.items = (el.layout c.options.defaultParallel s.pipeline.blocks).items.reverse ++ s.items := by
  cases h with
  | element el => exact .inr ⟨el, rfl, rfl⟩
  | _ => exact .inl rfl

theorem AddsAll.items_isSuffix (h : s.AddsAll c file es u) : s.items <:+ u.items := by
  induction es generalizing s with
  | nil => exact h ▸ List.suffix_rfl
  | cons e es ih =>
    obtain ⟨t, hadds, hall⟩ := h
    refine .trans ?_ (ih hall)
    rcases hadds.items with hitems | ⟨el, -, hitems⟩
    · exact hitems ▸ List.suffix_rfl
    · exact hitems ▸ List.suffix_append _ _

/-- A single item of the default block is all that one command or block adds. -/
theorem exists_element_of_addsAll (h : Consists k lines es) (hall : s.AddsAll c file es u)
    (hs : s.items = []) (hu : u.items = [x]) : ∃ el first more t, (first :: more) <:+: lines ∧
      (Part.element el).IsMadeBy first more ∧
      (Element.layout c.options.defaultParallel t el).items = [x] := by
  induction h generalizing s with
  | nil =>
    obtain rfl := hall
    rw [hs] at hu
    cases hu
  | @cons k first more rest part es hpart _ ih =>
    obtain ⟨t, hadds, hall⟩ := hall
    -- the first entry that adds anything leaves nothing for those behind it
    by_cases ht : t.items = []
    · obtain ⟨el, first', more', t', hlines, hfound⟩ := ih hall ht
      have hbehind : rest <:+: first :: (more ++ rest) :=
        ((List.suffix_append more rest).trans (List.suffix_cons first _)).isInfix
      exact ⟨el, first', more', t', hlines.trans hbehind, hfound⟩
    · rcases hadds.items with hitems | ⟨el, rfl, hitems⟩
      · exact absurd (hitems.trans hs) ht
      · have hsuffix := hall.items_isSuffix
        rw [hu] at hsuffix
        have hsole := (List.suffix_cons_iff.1 hsuffix).resolve_right fun hnil =>
          ht (List.suffix_nil.1 hnil)
        rw [hitems, hs, List.append_nil, List.reverse_eq_iff, List.reverse_singleton] at hsole
        exact ⟨el, first, more, _, (List.prefix_append (first :: more) rest).isInfix, hpart, hsole⟩

end State

variable {c : Setting} {file text : String} {d : Loaded} {x y : Item} {known : String → Bool}
  {parallel : Bool} {first joined row : String} {more : List String} {command : Command}
  {encode : Shell.Encoder}

/-- **Single commands.** A single item of the default block that is no block is one of a command
that the document has at some of its lines. -/
theorem exists_command_of_sole (h : (loadText c file text).result = .ok d)
    (hdefault : d.pipeline.blocks[Pipeline.defaultIndex]? = some ⟨[x], parallel⟩)
    (hx : x.blockIndex? = none) : ∃ (command : Command) (first : String) (more : List String),
      (first :: more) <:+: Text.lines text ∧
      (Part.element (.command command)).IsMadeBy first more ∧
      (Placement.ofCommand command.text command.statements c.options.defaultParallel).commands =
        [x] := by
  obtain ⟨es, u, hes, hall, hfinish⟩ := loadText_ok_iff_consists.1 h
  have hitems : u.items = [x] := by
    have hrun := ((State.run_ok_iff rfl (State.begun_start c.options)).2 ⟨es, hes, hall⟩).1
    have hempty := State.getElem?_blocks_of_run hrun (i := Pipeline.defaultIndex)
      (b := .empty c.options.defaultParallel) rfl
    rw [State.default_of_finish hfinish hempty] at hdefault
    have hsole : u.items.reverse = [x] := congrArg Block.items (Option.some.inj hdefault)
    rwa [List.reverse_eq_iff, List.reverse_singleton] at hsole
  obtain ⟨el, first, more, t, hlines, hpart, hsole⟩ :=
    State.exists_element_of_addsAll hes hall rfl hitems
  cases el with
  | nested b inner =>
    obtain rfl := List.singleton_inj.1 hsole
    cases hx
  | command command =>
    exact ⟨command, first, more, hlines, hpart, Placement.commands_of_itemsIn hsole hx⟩

/-! ## First rows of commands -/

theorem trimmed_congr (h : trim row.toList = trim first.toList) : trimmed row = trimmed first := by
  unfold trimmed
  rw [h]

theorem classify_congr (h : trim row.toList = trim first.toList) :
    classify row = classify first := by
  rw [← classify_trimmed, trimmed_congr h, classify_trimmed]

theorem not_skip_of_firstRow {cs : List Char} {b : Char}
    (hrow : trim row.toList = trim (firstRow cs)) (hhead : cs.head? = some b)
    (hblank : isBlank b = false) (hb : b ≠ '#') :
    isEmptyLine row = false ∧ isCommentLine row = false := by
  obtain ⟨tail, rfl⟩ := List.head?_eq_some_iff.1 hhead
  have hfeed : b ≠ '\n' := by
    rintro rfl
    cases hblank
  have hfirst : firstRow (b :: tail) = b :: firstRow tail :=
    List.takeWhile_cons_of_pos (decide_eq_true hfeed)
  have hchars : trim (firstRow (b :: tail)) = b :: trimEnd (firstRow tail) := by
    rw [hfirst]
    unfold trim
    rw [Text.trimStart_eq_self (by rintro d ⟨⟩; exact hblank), Text.trimEnd_cons hblank]
  exact not_skip_of_trim (hrow.trans hchars) hb

/-- What is known of the row that a command is written in, where `joined` is the first row of its
lines as they are joined. It is no blank line and no comment, and if the joined row is a command then
so is the written one, but for brackets and headers that a `;` stood behind. Unless the command goes
on behind a backslash in its first line, the joined row is this line, and a command. -/
structure StaysCommand (first : String) (more : List String) (joined row : String) : Prop where
  empty : isEmptyLine row = false
  comment : isCommentLine row = false
  direct : ¬Continues first more → trimmed joined = trimmed first ∧ classify joined = .command
  command : classify joined = .command → (classify row = .command ↔ ¬(Drops joined row ∧ IsLone row))

/-- The command was read at these lines of a document. -/
structure IsReadAt (command : Command) (first : String) (more : List String) : Prop where
  lines : ∀ l ∈ first :: more, '\n' ∉ l.toList
  classify : classify first = .command
  completes : Completes command.text (Shell.firstLine first) more
  scan : Shell.tokenize command.text = .complete command.statements

theorem isReadAt_of_isMadeBy (h : (Part.element (.command command)).IsMadeBy first more)
    (hlines : (first :: more) <:+: Text.lines text) : IsReadAt command first more := by
  unfold Part.IsMadeBy at h
  cases hkind : classify first with
  | command =>
    rw [hkind] at h
    obtain ⟨_, hcompletes, hscan, hpart⟩ := h
    cases hpart
    exact ⟨fun l hl => Text.lineFeed_not_mem_of_mem_lines (hlines.subset hl), hkind, hcompletes,
      hscan⟩
  | header name bracket =>
    rw [hkind] at h
    obtain ⟨_, _, _, _, -, -, -, hpart⟩ := h
    cases hpart
  | left b =>
    rw [hkind] at h
    obtain ⟨_, -, hpart⟩ := h
    cases hpart
  | right b =>
    rw [hkind] at h
    exact h.elim
  | _ =>
    rw [hkind] at h
    cases h.2

namespace IsReadAt

theorem begins (h : IsReadAt command first more) : Begins command.text := by
  obtain ⟨hfirst, hmore⟩ := List.forall_mem_cons.1 h.lines
  exact begins_of_completes h.completes (begins_trimmed hfirst) hmore

theorem direct (h : IsReadAt command first more) (hcontinues : ¬Continues first more) :
    trimmed (headRow command.text) = trimmed first ∧
      Document.classify (headRow command.text) = .command := by
  have hrow := firstRow_of_completes (h.lines first List.mem_cons_self) h.completes hcontinues
  have hsame : trim (headRow command.text).toList = trim first.toList := by
    rw [toList_headRow, hrow, Text.toList_trimmed, Text.trim_trim]
  exact ⟨trimmed_congr hsame, (classify_congr hsame).trans h.classify⟩

theorem staysCommand_of_or (h : IsReadAt command first more)
    (hskip : isEmptyLine row = false ∧ isCommentLine row = false)
    (hrow : Document.classify (headRow command.text) = .command →
      Document.classify row = .command ∨ Drops (headRow command.text) row ∧ IsLone row) :
    StaysCommand first more (headRow command.text) row where
  empty := hskip.1
  comment := hskip.2
  direct := h.direct
  command hjoined :=
    ⟨fun hcommand hlone => hlone.2.ne_command hcommand, (hrow hjoined).resolve_right⟩

theorem exists_head (h : IsReadAt command first more) (hne : command.statements ≠ []) :
    ∃ b, command.text.toList.head? = some b ∧ isBlank b = false ∧ b ≠ '#' := by
  have hscan : Shell.tokenize command.text ≠ .complete [] := by
    rw [h.scan]
    exact fun hnil => hne (Shell.Outcome.complete.inj hnil)
  cases hhead : command.text.toList.head? with
  | none =>
    refine absurd ?_ hscan
    unfold Shell.tokenize
    rw [List.head?_eq_none_iff.1 hhead]
    rfl
  | some b =>
    refine ⟨b, rfl, h.begins.blank b hhead, ?_⟩
    rintro rfl
    exact h.begins.ne_comment hscan hhead

theorem stays_whole (h : IsReadAt command first more) (hne : command.statements ≠ [])
    (hrow : trim row.toList = trim (firstRow command.text.toList)) :
    StaysCommand first more (headRow command.text) row := by
  obtain ⟨b, hhead, hblank, hb⟩ := h.exists_head hne
  refine h.staysCommand_of_or (not_skip_of_firstRow hrow hhead hblank hb) fun hjoined => .inl ?_
  have hsame : trim row.toList = trim (headRow command.text).toList := by
    rw [toList_headRow, hrow]
  exact (classify_congr hsame).trans hjoined

/-- The text of the only statement may end before a `;`. -/
theorem stays_statement (h : IsReadAt command first more) {s : Shell.Statement}
    (hs : command.statements = [s]) (hrow : trim row.toList = trim (firstRow s.text.toList)) :
    StaysCommand first more (headRow command.text) row := by
  have hscan := h.scan
  rw [hs] at hscan
  obtain ⟨b, hhead, hblank, hb⟩ := h.exists_head (by rw [hs]; exact List.cons_ne_nil s [])
  have hstart := Shell.head?_text_of_tokenize hscan hhead hblank hb
  have hskip := not_skip_of_firstRow hrow hstart hblank hb
  refine h.staysCommand_of_or hskip fun hjoined => ?_
  rcases firstRow_of_statement hscan h.begins with hsame | ⟨bs, behind, hbs, hsplit⟩
  · have hline : trim row.toList = trim (headRow command.text).toList := by
      rw [toList_headRow, hrow, hsame]
    exact .inl ((classify_congr hline).trans hjoined)
  · have hdrops : Drops (headRow command.text) row := by
      refine ⟨bs, behind, hbs, ?_⟩
      rw [Text.toList_trimmed, Text.toList_trimmed, hrow, toList_headRow, hsplit]
    exact (command_or_isLone hjoined hdrops hskip.1).imp_right fun hlone => ⟨hdrops, hlone⟩

end IsReadAt

/-! ## Calls -/

theorem exists_toList_render (encode : Shell.Encoder) (e : String × String)
    (es : List (String × String)) : ∃ rest,
    (Arguments.render ⟨e :: es⟩ encode).toList = ' ' :: (e.1.toList ++ '=' :: rest) := by
  unfold Arguments.render
  rw [List.map_cons, String.join_cons, String.toList_append, Arguments.entryText]
  simp only [String.toList_append, List.append_assoc]
  exact ⟨_, rfl⟩

/-- The first row of a call is the name of the procedure with the first argument behind it, if there
is one. -/
theorem exists_row_of_call {name : String} {args : Arguments} (hname : IsProcedureName name)
    (hargs : args.WellNamed)
    (hrow : trim row.toList = trim (firstRow (name ++ args.render encode).toList)) :
    ∃ rest, trim row.toList = name.toList ++ rest ∧
      (∀ b, rest.head? = some b → isBlank b = true) ∧
      (∀ b, (trimStart rest).head? = some b → isOptionChar b = true) ∧
      (args.entries = [] → rest = []) := by
  have hfeed : '\n' ∉ name.toList := lineFeed_not_mem_of_isPlain hname.isPlain
  have hhead : ∀ cs b, (name.toList ++ cs).head? = some b → isBlank b = false := by
    intro cs b hb
    rw [List.head?_append_of_ne_nil _ hname.ne_nil] at hb
    exact hname.not_isBlank b (List.mem_of_mem_head? hb)
  obtain ⟨entries⟩ := args
  rw [String.toList_append] at hrow
  cases entries with
  | nil =>
    refine ⟨[], ?_, nofun, nofun, fun _ => rfl⟩
    rw [hrow, show (Arguments.render ⟨[]⟩ encode).toList = [] from rfl, List.append_nil,
      Text.firstRow_eq_self hfeed]
    exact Text.trim_eq_self (fun b hb => hname.not_isBlank b (List.mem_of_mem_head? hb))
      fun b hb => hname.not_isBlank b (List.mem_of_getLast? hb)
  | cons e es =>
    have he : IsOptionName e.1 := hargs.names e List.mem_cons_self
    obtain ⟨rest, hrender⟩ := exists_toList_render encode e es
    obtain ⟨k, ks, hkey⟩ := List.exists_cons_of_ne_nil (l := e.1.toList) (by simpa using he.1)
    have hk : isOptionChar k = true := List.all_eq_true.1 he.2 k (hkey ▸ List.mem_cons_self)
    have hblank : isBlank k = false := by
      rw [← Bool.not_eq_true]
      intro hblank
      cases (isNameChar_of_isOptionChar hk).symm.trans (isNameChar_of_isBlank hblank)
    have hplain : '\n' ∉ name.toList ++ ' ' :: e.1.toList := by
      rw [List.mem_append, not_or]
      exact ⟨hfeed, List.not_mem_cons_of_ne_of_not_mem (by decide)
        (lineFeed_not_mem_of_isPlain he.isPlain)⟩
    refine ⟨' ' :: (e.1.toList ++ '=' :: trimEnd (firstRow rest)), ?_, ?_, ?_, nofun⟩
    · rw [hrow, hrender, ← List.cons_append, ← List.append_assoc,
        Text.trim_firstRow_append_cons hplain (by decide) (hhead _), List.append_assoc]
      rfl
    · rintro b ⟨⟩
      decide
    · rw [hkey, List.cons_append]
      intro b hb
      have hspace : ∀ d ∈ [' '], isBlank d = true := List.forall_mem_singleton.2 (by decide)
      have hstart : trimStart (' ' :: k :: (ks ++ '=' :: trimEnd (firstRow rest))) =
          k :: (ks ++ '=' :: trimEnd (firstRow rest)) :=
        (Text.trimStart_append_of_blank hspace _).trans
          (Text.trimStart_eq_self (by rintro d ⟨⟩; exact hblank))
      rw [hstart] at hb
      rw [← Option.some.inj hb]
      exact hk

/-- A command with the words of a call of `include` with an argument begins with an include. -/
theorem includeTarget?_ne_none_of_args {s : Shell.Statement} {words : List String} {word : String}
    {e : String × String} (hscan : Shell.tokenize text = .complete [s]) (hbegins : Begins text)
    (hhead : s.head = "include") (hargs : s.args = word :: words) (hword : IsOption word e) :
    includeTarget? (headRow text) ≠ none := by
  obtain ⟨w, v, vs, hwords, hw, hv⟩ : ∃ w v vs, s.words = w :: v :: vs ∧
      w.text = "include" ∧ v.text = word := by
    unfold Shell.Statement.head Shell.Statement.args Shell.Statement.wordTexts at *
    match hwords : s.words with
    | [] => simp [hwords] at hargs
    | [w] => simp [hwords] at hargs
    | w :: v :: vs =>
      rw [hwords] at hhead hargs
      exact ⟨w, v, vs, rfl, hhead, (List.cons_eq_cons.1 hargs).1⟩
  obtain ⟨hname, value, rfl, -⟩ := hword
  have hw' : ¬w.IsOperator := by
    rintro (rfl | rfl | rfl | rfl) <;> revert hw <;> decide
  have hv' : ¬v.IsOperator := by
    intro hoperator
    have hmem : '=' ∈ v.text.toList := by
      rw [hv]
      simp
    rcases hoperator with rfl | rfl | rfl | rfl <;> revert hmem <;> decide
  obtain ⟨b, bs, rest, hblanks, htext⟩ := Shell.exists_gap_of_tokenize hscan hbegins.blank
    (hbegins.ne_comment (by rw [hscan]; nofun)) hwords hw' hv'
  have hinclude : w.source = "include".toList := by
    rw [← hw, Shell.Word.text, String.toList_ofList]
  have hkey : v.source = e.1.toList ++ '=' :: value.toList := by
    rw [← String.toList_ofList (l := v.source), ← Shell.Word.text, hv]
    simp
  have hfeed : '\n' ∉ "include".toList ++ b :: (bs ++ e.1.toList) := by
    rw [List.mem_append, ← List.cons_append, List.mem_append]
    rintro (hmem | hmem | hmem)
    · revert hmem
      decide
    · rcases hblanks _ hmem with h | h | h <;> cases h
    · exact lineFeed_not_mem_of_isPlain hname.isPlain hmem
  have hrow : trim (headRow text).toList = "include".toList ++
      b :: (bs ++ (e.1.toList ++ '=' :: trimEnd (firstRow (value.toList ++ rest)))) := by
    have hsplit : text.toList = ("include".toList ++ b :: (bs ++ e.1.toList)) ++
        '=' :: (value.toList ++ rest) := by
      rw [htext, hinclude, hkey]
      simp only [List.append_assoc, List.cons_append]
    rw [toList_headRow, hsplit, Text.trim_firstRow_append_cons hfeed (by decide)
      (by rintro d ⟨⟩; decide)]
    simp only [List.append_assoc, List.cons_append]
  have hblank : isBlank b = true := by
    rcases hblanks b List.mem_cons_self with rfl | rfl | rfl <;> decide
  exact includeTarget?_ne_none hrow hblank (by simp) (c := '=') (by decide) (by decide)

/-- A call keeps its row a command, even where its procedure is named `include`. -/
theorem IsReadAt.stays_call (h : IsReadAt command first more) {s : Shell.Statement}
    (hs : command.statements = [s]) {name : String} {args : Arguments}
    (hname : IsProcedureName name) (hbecomes : (Item.ofStatement s).Becomes known (.call name args))
    (hrow : trim row.toList = trim (firstRow (name ++ args.render encode).toList)) :
    StaysCommand first more (headRow command.text) row := by
  obtain ⟨text, head, words, args', haction, -, hwords, hdistinct, hcall⟩ := hbecomes
  obtain ⟨rfl, rfl, rfl⟩ := Action.shell.inj haction
  obtain ⟨rfl, rfl⟩ := Action.call.inj (congrArg Item.action hcall)
  obtain ⟨rest, hchars, hblank, hoption, hnone⟩ :=
    exists_row_of_call hname ⟨isOptionName_of_forall₂ hwords, hdistinct⟩ hrow
  obtain ⟨-, -, hskip⟩ := hname.not_lone hchars
  refine h.staysCommand_of_or hskip fun hjoined => .inl ?_
  refine classify_eq_command_of_call hname hchars hblank hoption fun hinclude => hnone ?_
  cases hentries : args.entries with
  | nil => rfl
  | cons e es =>
    -- the words of such a call would have made an include of the joined row
    have hscan := h.scan
    rw [hs] at hscan
    rw [hentries] at hwords
    obtain ⟨word, words, hword, -, hargs⟩ := List.forall₂_cons_right_iff.1 hwords
    obtain ⟨hnotarget, -⟩ := classify_eq_command_iff.1 hjoined
    exact absurd hnotarget (includeTarget?_ne_none_of_args hscan h.begins hinclude hargs hword)

/-! ## Written items -/

theorem exists_text? (encode : Shell.Encoder) (hx : x.blockIndex? = none) :
    ∃ written, x.text? encode = some written := by
  unfold Item.blockIndex? at hx
  unfold Item.text?
  cases haction : x.action with
  | shell line head args => exact ⟨line, rfl⟩
  | call name args => exact ⟨_, rfl⟩
  | block i =>
    rw [haction] at hx
    cases hx

theorem defaultRows_of_text? {p : Pipeline} {written : String}
    (h : p.blocks[Pipeline.defaultIndex]? = some ⟨[x], parallel⟩)
    (htext : x.text? encode = some written) : p.defaultRows encode = .ok [written] := by
  rw [Pipeline.defaultRows_of_singleton (Pipeline.defaultBlock_of_getElem? h)]
  unfold Item.text? at htext
  unfold Pipeline.itemOutline Pipeline.itemOutlineWith
  cases haction : x.action with
  | shell line head args =>
    rw [haction] at htext
    obtain rfl := Option.some.inj htext
    simp [Except.map, Outline.rows]
  | call name args =>
    rw [haction] at htext
    obtain rfl := Option.some.inj htext
    simp [Except.map, Outline.rows]
  | block i =>
    rw [haction] at htext
    cases htext

theorem exists_head?_lines (written : String) : ∃ row,
    (Text.lines (Text.unlines [written])).head? = some row ∧
      trim row.toList = trim (firstRow written.toList) := by
  rw [Text.lines_unlines_flatMap, List.flatMap_singleton]
  exact Text.exists_head?_physicalLines written

theorem IsReadAt.stays (h : IsReadAt command first more)
    (hsole : (Placement.ofCommand command.text command.statements parallel).commands = [y])
    (hsettled : y.Settled known) (hknown : ∀ name, known name = true → IsProcedureName name)
    {written : String} (hwritten : (y.promoted known).text? encode = some written)
    (hrow : trim row.toList = trim (firstRow written.toList)) :
    StaysCommand first more (headRow command.text) row := by
  rcases Placement.ofCommand_commands_eq hsole with ⟨hmany, rfl⟩ | ⟨s, hs, rfl⟩
  · have hkept : (Item.ofStatements command.text command.statements).promoted known =
        .ofStatements command.text command.statements := by
      match hstatements : command.statements with
      | [] => simp [hstatements] at hmany
      | [s] => simp [hstatements] at hmany
      | s :: s' :: rest =>
        exact Item.promoted_ofStatements
          (Shell.words_ne_nil_of_tokenize h.scan (by simp [hstatements])) command.text
    obtain ⟨head, args, haction⟩ := exists_action_ofStatements command.text command.statements
    unfold Item.text? at hwritten
    rw [hkept, haction] at hwritten
    obtain rfl := Option.some.inj hwritten
    exact h.stays_whole (List.ne_nil_of_length_pos (by omega)) hrow
  · rcases Item.promoted_cases hsettled with hcall | ⟨hkept, -⟩
    · have hbecomes := hcall
      obtain ⟨_, name, _, args, -, hname, -, -, hpromoted⟩ := hcall
      rw [hpromoted] at hbecomes hwritten
      obtain rfl := Option.some.inj hwritten
      exact h.stays_call hs (hknown name hname) hbecomes hrow
    · rw [hkept] at hwritten
      obtain rfl := Option.some.inj hwritten
      exact h.stays_statement hs hrow

/-- **Bare items.** A single command or call of the default block was read at some lines of the
document, the first of which is a command. It is written as one text, the first line of which is no
blank line and no comment. Where the first row of the joined lines is a command, the written line is
a command too, unless it is a lone bracket or header that a `;` stood behind. -/
theorem bareRow_of_load (h : (loadText c file text).result = .ok d)
    (hcheck : d.pipeline.check.2.result = .ok ⟨⟩)
    (hdefault : d.pipeline.check.1.blocks[Pipeline.defaultIndex]? = some ⟨[x], parallel⟩)
    (hx : x.blockIndex? = none) (encode : Shell.Encoder) :
    ∃ (written row first : String) (more : List String) (command : Command),
      d.pipeline.check.1.defaultRows encode = .ok [written] ∧
      (Text.lines (Text.unlines [written])).head? = some row ∧
      (first :: more) <:+: Text.lines text ∧
      (Part.element (.command command)).IsMadeBy first more ∧
      (Placement.ofCommand command.text command.statements
        c.options.defaultParallel).commands.map (.promoted d.pipeline.procedures.contains) = [x] ∧
      StaysCommand first more (headRow command.text) row := by
  have hsettled := Pipeline.settled_of_check hcheck
  have hshape := Pipeline.check_eq_promoted hsettled
  obtain ⟨⟨items, flag⟩, hblock, hpromoted⟩ : ∃ b, d.pipeline.blocks[Pipeline.defaultIndex]? =
      some b ∧ b.promoted d.pipeline.procedures.contains = ⟨[x], parallel⟩ := by
    have hmap := hdefault
    rw [hshape, Pipeline.promoted, Array.getElem?_map, Option.map_eq_some_iff] at hmap
    exact hmap
  obtain ⟨y, rfl, rfl⟩ := List.map_eq_singleton_iff.1 (congrArg Block.items hpromoted)
  rw [blockIndex?_promoted] at hx
  obtain ⟨command, first, more, hlines, hpart, hsole⟩ := exists_command_of_sole h hblock hx
  obtain ⟨written, hwritten⟩ := exists_text? encode ((blockIndex?_promoted _ y).trans hx)
  obtain ⟨row, hhead, hrow⟩ := exists_head?_lines written
  have hknown : ∀ name, d.pipeline.procedures.contains name = true → IsProcedureName name := by
    intro name hname
    obtain ⟨procedure, hprocedure⟩ := ByName.contains_iff.1 hname
    exact ((sound_of_loadText h).names _ (ByName.mem_entries_iff.2 hprocedure)).2
  have hstays := (isReadAt_of_isMadeBy hpart hlines).stays hsole
    (hsettled _ (Array.mem_of_getElem? hblock) y List.mem_cons_self) hknown hwritten hrow
  exact ⟨written, row, first, more, command, defaultRows_of_text? hdefault hwritten, hhead, hlines,
    hpart, by rw [hsole]; rfl, hstays⟩

/-- A document with a call over two lines, blanks and a comment around its words. -/
def callDocument : String :=
  Text.unlines ["build() \x7b", "\techo $a", "\x7d", "  build \\", "\ta='1;2' # all"]

/-- The pipeline that the document loads to, before its check. -/
def callPipeline : Pipeline where
  blocks := #[⟨[.ofLine "build a='1;2' # all"], false⟩, ⟨[.ofLine "echo $a"], false⟩]
  procedures := .ofList [("build", ⟨"build", 1, []⟩)]
  declarations := .ofList [("build", ⟨"doc.pipe", 1⟩)]

theorem bareRow_of_load_callDocument :
    (loadText .alone "doc.pipe" callDocument).result = .ok ⟨callPipeline, .empty⟩ ∧
      callPipeline.check.1.blocks[Pipeline.defaultIndex]? =
        some ⟨[.call "build" ⟨[("a", "1;2")]⟩], false⟩ ∧
      ∃ (written row first : String) (more : List String) (command : Command),
        callPipeline.check.1.defaultRows Shell.posix = .ok [written] ∧
        (Text.lines (Text.unlines [written])).head? = some row ∧
        (first :: more) <:+: Text.lines callDocument ∧
        (Part.element (.command command)).IsMadeBy first more ∧
        (Placement.ofCommand command.text command.statements false).commands.map
          (Item.promoted callPipeline.procedures.contains) =
            [Item.call "build" ⟨[("a", "1;2")]⟩] ∧
        StaysCommand first more (headRow command.text) row := by
  have hload : (loadText .alone "doc.pipe" callDocument).result = .ok ⟨callPipeline, .empty⟩ := by
    decide +kernel
  have hdefault : callPipeline.check.1.blocks[Pipeline.defaultIndex]? =
      some ⟨[.call "build" ⟨[("a", "1;2")]⟩], false⟩ := by
    decide +kernel
  exact ⟨hload, hdefault, bareRow_of_load hload (by decide +kernel) hdefault rfl Shell.posix⟩

/-- A pipeline that runs one command. -/
def commandPipeline (line head : String) (args : List String) : Pipeline :=
  ⟨#[⟨[.shell line head args], false⟩], .empty, .empty⟩

/-- The text loads to this one command, its check changes nothing, and the command is written. -/
def RunsAlone (text line head : String) (args : List String) : Prop :=
  (loadText .alone "doc.pipe" text).result = .ok ⟨commandPipeline line head args, .empty⟩ ∧
    (commandPipeline line head args).check.1 = commandPipeline line head args ∧
    (commandPipeline line head args).check.2.result = .ok ⟨⟩ ∧
    (commandPipeline line head args).defaultRows Shell.posix = .ok [line]

instance (text line head : String) (args : List String) :
    Decidable (RunsAlone text line head args) :=
  inferInstanceAs (Decidable (_ ∧ _ ∧ _ ∧ _))

/-- Without the `;` a command is written as a bracket or as a header; and where a backslash has
divided the keyword, the joined line is an include. -/
theorem not_command_of_load :
    RunsAlone "\x7d;\n" "\x7d" "\x7d" [] ∧ classify "\x7d;" = .command ∧
        classify "\x7d" = .right .sequential ∧
      RunsAlone "build();\n" "build()" "build()" [] ∧ classify "build();" = .command ∧
        classify "build()" = .header "build" none ∧
      RunsAlone "inc\\\nlude x\n" "include x" "include" ["x"] ∧ classify "inc\\" = .command ∧
        classify "include x" = .include "x" := by
  decide +kernel

end Document

end Runbook
