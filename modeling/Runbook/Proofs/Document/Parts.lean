import Runbook.Proofs.Document.Body
import Runbook.Proofs.Document.Concatenation

/-!
# What a document consists of

A document is a sequence of parts: blank lines, attributes, includes, assignments, commands, blocks
and procedures. What a part is hangs on its first line, and so does how many lines belong to it
(`Part.IsMadeBy`); lines consist of parts in one way only (`Consists.unique`). A load that comes to
an end between entries is a load of parts, each of which adds to the state what it stands for
(`State.Adds`, `State.run_ok_iff`).
-/

namespace Runbook.Document

/-! ## Parts -/

/-- The lines are what stands between an opening bracket and its end, the closing bracket last. -/
def Encloses (b : Bracket) (lines : List String) (inner : List Element) : Prop :=
  ∃ body closing, lines = body ++ [closing] ∧ Spells body inner ∧ rightBracket? closing = some b

/-- A line between a header and the bracket below it. -/
def IsGap (line : String) : Prop :=
  isEmptyLine line = true ∨ isAttributeLine line = false ∧ isCommentLine line = true

/-- The lines below a header lead to the bracket of its procedure, unless that stands in the header
itself. -/
inductive Opens (b : Bracket) : Option Bracket → List String → Prop
  | behind : Opens b (some b) []
  | bracket {line : String} (hline : leftBracket? line = some b) : Opens b none [line]
  | gap {line : String} {lines : List String} (hline : IsGap line) (hrest : Opens b none lines) :
    Opens b none (line :: lines)

inductive Part where
  /-- A blank line, or a comment that is no attribute. -/
  | blank
  /-- An attribute line, with the attribute when it is well formed. -/
  | attributeLine (a : Option (String × String))
  | inclusion (target : String)
  | assignment (name value : String)
  /-- A command or a block that the default block runs. -/
  | element (x : Element)
  /-- A procedure with what stands between its brackets. -/
  | procedure (name : String) (b : Bracket) (inner : List Element)

/-- The lines `first :: more` make up the part, as the first one says. -/
def Part.IsMadeBy (first : String) (more : List String) (x : Part) : Prop :=
  match classify first with
  | .include target => more = [] ∧ x = .inclusion target
  | .header name bracket => ∃ head body b inner, more = head ++ body ∧ Opens b bracket head ∧
      Encloses b body inner ∧ x = .procedure name b inner
  | .left b => ∃ inner, Encloses b more inner ∧ x = .element (.nested b inner)
  | .right _ => False
  | .empty => more = [] ∧ x = .blank
  | .attribute => more = [] ∧ x = .attributeLine (attribute? first)
  | .comment => more = [] ∧ x = .blank
  | .variable name value => more = [] ∧ x = .assignment name value
  | .command => ∃ command : Command, Completes command.text (Shell.firstLine first) more ∧
      Shell.tokenize command.text = .complete command.statements ∧ x = .element (.command command)

/-- A part, and the number of its first line. -/
structure Entry where
  line : Nat
  part : Part

/-- The lines behind the first `k` ones consist of these entries. -/
inductive Consists : Nat → List String → List Entry → Prop
  | nil (k : Nat) : Consists k [] []
  | cons {k : Nat} {first : String} {more rest : List String} {x : Part} {es : List Entry}
    (hpart : x.IsMadeBy first more) (hrest : Consists (k + (more.length + 1)) rest es) :
    Consists k (first :: (more ++ rest)) (⟨k + 1, x⟩ :: es)

theorem Consists.append {k : Nat} {lines more : List String} {es es' : List Entry}
    (h : Consists k lines es) (h' : Consists (k + lines.length) more es') :
    Consists k (lines ++ more) (es ++ es') := by
  induction h with
  | nil k => exact h'
  | @cons k first xs rest x es hpart _ ih =>
    rw [List.cons_append, List.append_assoc]
    refine .cons hpart (ih ?_)
    rwa [show k + (xs.length + 1) + rest.length = k + (first :: (xs ++ rest)).length by
      simp only [List.length_cons, List.length_append]
      omega]

/-! ## Only one way to read a document -/

section Unique

variable {b b' : Bracket} {bracket : Option Bracket} {lines lines' rest rest' : List String}
  {inner inner' : List Element} {line first : String}

theorem Encloses.unique (h : Encloses b lines inner) (h' : Encloses b' lines' inner')
    (hlines : lines ++ rest = lines' ++ rest') : lines = lines' ∧ inner = inner' ∧ rest = rest' := by
  obtain ⟨body, closing, rfl, hspells, hclosing⟩ := h
  obtain ⟨body', closing', rfl, hspells', hclosing'⟩ := h'
  rw [List.append_assoc, List.append_assoc] at hlines
  obtain ⟨rfl, rfl, hend⟩ := hspells.unique_of_append hspells' hclosing hclosing' hlines
  obtain ⟨rfl, rfl⟩ := List.cons_eq_cons.1 hend
  exact ⟨rfl, rfl, rfl⟩

theorem isCommentLine_of_isAttributeLine (h : isAttributeLine line = true) :
    isCommentLine line = true := by
  obtain ⟨rest, hrest⟩ := Option.isSome_iff_exists.1 h
  unfold isCommentLine
  rw [after?_eq_some hrest]
  rfl

theorem not_skip_of_trim {c : Char} {cs : List Char} (h : Text.trim line.toList = c :: cs)
    (hc : c ≠ '#') : isEmptyLine line = false ∧ isCommentLine line = false := by
  constructor
  · unfold isEmptyLine
    rw [h]
    rfl
  · refine decide_eq_false fun hhead => hc ?_
    rw [← Text.head?_trim, h] at hhead
    exact Option.some.inj hhead

theorem not_skip_of_leftBracket? (h : leftBracket? line = some b) :
    isEmptyLine line = false ∧ isCommentLine line = false := by
  have htrim := trim_of_leftBracket? h
  cases b <;> exact not_skip_of_trim htrim (by decide)

theorem not_skip_of_rightBracket? (h : rightBracket? line = some b) :
    isEmptyLine line = false ∧ isCommentLine line = false := by
  have htrim := trim_of_rightBracket? h
  cases b <;> exact not_skip_of_trim htrim (by decide)

theorem not_isGap_of_leftBracket? (h : leftBracket? line = some b) : ¬IsGap line := by
  obtain ⟨hempty, hcomment⟩ := not_skip_of_leftBracket? h
  rintro (hline | ⟨-, hline⟩)
  · cases hempty.symm.trans hline
  · cases hcomment.symm.trans hline

theorem Opens.unique (h : Opens b bracket lines) (h' : Opens b' bracket lines')
    (hlines : lines ++ rest = lines' ++ rest') : b = b' ∧ lines = lines' ∧ rest = rest' := by
  induction h generalizing lines' with
  | behind =>
    cases h'
    exact ⟨rfl, rfl, hlines⟩
  | bracket hline =>
    cases h' with
    | bracket hline' =>
      obtain ⟨rfl, rfl⟩ := List.cons_eq_cons.1 hlines
      exact ⟨Option.some.inj (hline.symm.trans hline'), rfl, rfl⟩
    | gap hgap =>
      obtain ⟨rfl, -⟩ := List.cons_eq_cons.1 hlines
      exact absurd hgap (not_isGap_of_leftBracket? hline)
  | gap hgap _ ih =>
    cases h' with
    | bracket hline' =>
      obtain ⟨rfl, -⟩ := List.cons_eq_cons.1 hlines
      exact absurd hgap (not_isGap_of_leftBracket? hline')
    | gap _ hrest' =>
      obtain ⟨rfl, htail⟩ := List.cons_eq_cons.1 hlines
      obtain ⟨rfl, rfl, hend⟩ := ih hrest' htail
      exact ⟨rfl, rfl, hend⟩

/-- The first line says how far a part goes, and what it is. -/
theorem Part.IsMadeBy.unique {x x' : Part} (h : x.IsMadeBy first lines)
    (h' : x'.IsMadeBy first lines') (hlines : lines ++ rest = lines' ++ rest') :
    x = x' ∧ lines = lines' ∧ rest = rest' := by
  unfold IsMadeBy at h h'
  cases hkind : classify first with
  | header name bracket =>
    rw [hkind] at h h'
    obtain ⟨head, body, b, inner, rfl, hopens, hencloses, rfl⟩ := h
    obtain ⟨head', body', b', inner', rfl, hopens', hencloses', rfl⟩ := h'
    rw [List.append_assoc, List.append_assoc] at hlines
    obtain ⟨rfl, rfl, hbodies⟩ := hopens.unique hopens' hlines
    obtain ⟨rfl, rfl, hend⟩ := hencloses.unique hencloses' hbodies
    exact ⟨rfl, rfl, hend⟩
  | left b =>
    rw [hkind] at h h'
    obtain ⟨inner, hencloses, rfl⟩ := h
    obtain ⟨inner', hencloses', rfl⟩ := h'
    obtain ⟨rfl, rfl, hend⟩ := hencloses.unique hencloses' hlines
    exact ⟨rfl, rfl, hend⟩
  | command =>
    rw [hkind] at h h'
    obtain ⟨⟨text, statements⟩, hcompletes, hscan, rfl⟩ := h
    obtain ⟨⟨text', statements'⟩, hcompletes', hscan', rfl⟩ := h'
    obtain ⟨htext, rfl, hend⟩ := hcompletes.unique hcompletes' hscan hscan' hlines
    obtain rfl : text = text' := htext
    obtain rfl := Shell.Outcome.complete.inj (hscan.symm.trans hscan')
    exact ⟨rfl, rfl, hend⟩
  | right b =>
    rw [hkind] at h
    exact h.elim
  -- The other parts are single lines.
  | _ =>
    rw [hkind] at h h'
    obtain ⟨rfl, rfl⟩ := h
    obtain ⟨rfl, rfl⟩ := h'
    exact ⟨rfl, rfl, hlines⟩

/-- **One reading.** Lines consist of entries in one way only. -/
theorem Consists.unique {k : Nat} {es es' : List Entry} (h : Consists k lines es)
    (h' : Consists k lines es') : es = es' := by
  induction h generalizing es' with
  | nil k =>
    cases h'
    rfl
  | @cons k first more rest x es hpart _ ih =>
    generalize hlines : first :: (more ++ rest) = lines at h'
    cases h' with
    | nil => cases hlines
    | cons hpart' hrest' =>
      obtain ⟨rfl, htail⟩ := List.cons_eq_cons.1 hlines
      obtain ⟨rfl, rfl, rfl⟩ := hpart.unique hpart' htail
      rw [ih hrest']

end Unique

namespace State

/-! ## What the parts add -/

/-- The items and blocks that a command or a block of the default block becomes are added. -/
def withElement (s : State) (parallel : Bool) (x : Element) : State :=
  (s.drop.withTable (x.layout parallel s.pipeline.blocks).table).appendDefault
    (x.layout parallel s.pipeline.blocks).items

/-- What a part adds to a load between entries; its first line stands at this position. -/
inductive Adds (c : Setting) (pos : Position) (s : State) : Part → State → Prop
  | blank : Adds c pos s .blank s
  | attributeLine (a : Option (String × String)) :
    Adds c pos s (.attributeLine a) { s with pending := a.toList ++ s.pending }
  | inclusion (target : String) (vars : Variables)
    (hread : (s.drop.readInclude c pos target).result = .ok { s.drop with assigned := vars }) :
    Adds c pos s (.inclusion target) { s.drop with assigned := vars }
  | assignment (name value : String) :
    Adds c pos s (.assignment name value)
      { s.drop with assigned := s.assigned.insert name value }
  | element (x : Element) :
    Adds c pos s (.element x) (s.withElement c.options.defaultParallel x)
  | procedure (name : String) (b : Bracket) (inner : List Element)
    (hnew : s.pipeline.declarations.get? name = none) :
    Adds c pos s (.procedure name b inner)
      (withProcedure { s with pipeline := s.pipeline.declare name pos } name
        (Element.blockOf b inner s.pipeline.blocks)
        (Element.layoutAll b.isParallel s.pipeline.blocks inner).table)

/-- What some entries of a file add, one after the other. -/
def AddsAll (c : Setting) (file : String) (s : State) : List Entry → State → Prop
  | [], u => u = s
  | e :: es, u => ∃ t, s.Adds c ⟨file, e.line⟩ e.part t ∧ t.AddsAll c file es u

variable {c : Setting} {file : String} {pos : Position} {first line text : String}
  {lines more rest : List String} {s s' t u : State} {x : Part} {owner : Option Declaration}
  {b : Bracket} {inner : List Element} {k : Nat} {parallel : Bool}

theorem Adds.idle (h : s.Adds c pos x t) (hs : s.mode = .idle) : t.mode = .idle := by
  cases h with
  | element => rfl
  | procedure => rfl
  | _ => exact hs

/-! ## Lines of a part -/

theorem run_of_completes {command : Command} (hreads : s.Reads line s' text)
    (hcompletes : Completes command.text text more)
    (hscan : Shell.tokenize command.text = .complete command.statements)
    (hs : s.Begun parallel) :
    (s.run c file k (line :: more)).result =
      .ok ((s'.withTable
          ((Element.command command).layout parallel s'.pipeline.blocks).table).appendDefault
        ((Element.command command).layout parallel s'.pipeline.blocks).items) := by
  induction more generalizing s s' line text k with
  | nil =>
    obtain rfl : text = command.text := hcompletes
    have hmove : s.Moves c ⟨file, k + 1⟩ line _ :=
      .command s' _ _ _ hreads hscan (Pipeline.defaultBlock_of_getElem? hs.default)
    rw [← hreads.pipeline_eq] at hmove
    rw [Element.layout]
    exact run_cons_ok.2 ⟨_, hmove, rfl⟩
  | cons l more ih =>
    obtain ⟨hunfinished, hmore⟩ := hcompletes
    have hmove : s.Moves c ⟨file, k + 1⟩ line (s'.enter (.command text)) :=
      .unfinished s' text hreads hunfinished
    have hrun := ih (k := k + 1) (.inl ⟨text, rfl, rfl, rfl⟩) hmore (hmove.begun hs)
    rw [result_run_cons hmove]
    exact hrun

theorem run_of_encloses (h : Encloses b lines inner) (hmode : s.mode = .body owner (.new b))
    (hfinish : ((s.withTable
      (Element.layoutAll b.isParallel s.pipeline.blocks inner).table).finishBody owner
      (Element.blockOf b inner s.pipeline.blocks)).result = .ok t) :
    (s.run c file k lines).result = .ok t := by
  obtain ⟨body, closing, rfl, hspells, hclosing⟩ := h
  have hfollows := Nest.follows_of_spells (n := .new b) hspells rfl s.pipeline.blocks
  have hcloses := Nest.moves_closed_after s.pipeline.blocks inner hclosing
  rw [result_run_append (run_of_follows file hfollows hmode rfl k), run_cons_ok]
  refine ⟨t, ?_, rfl⟩
  rcases finishBody_ok_iff.1 hfinish with ⟨rfl, rfl⟩ | ⟨d, rfl, hnew, rfl⟩
  · exact .closing _ _ _ rfl hcloses
  · exact .procedure d _ _ _ rfl hcloses hnew

theorem run_of_opens {d : Declaration} {bracket : Option Bracket} (h : Opens b bracket lines)
    (hmode : s.mode = headerMode d bracket) :
    (s.run c file k lines).result = .ok (s.enter (.body (some d) (.new b))) := by
  induction h generalizing k with
  | behind =>
    unfold enter
    rw [← show s.mode = .body (some d) (.new b) from hmode]
    rfl
  | bracket hline =>
    refine run_cons_ok.2 ⟨_, .begin d b hmode ?_ hline, rfl⟩
    obtain ⟨hempty, hcomment⟩ := not_skip_of_leftBracket? hline
    rintro (h | h | h)
    · cases hempty.symm.trans h
    · cases hcomment.symm.trans (isCommentLine_of_isAttributeLine h)
    · cases hcomment.symm.trans h
  | gap hgap _ ih =>
    exact run_cons_ok.2 ⟨s, .await d hmode hgap, ih hmode⟩

/-- **Parts are read.** The lines of a part lead to what it adds. -/
theorem run_of_isMadeBy (h : x.IsMadeBy first more) (hmode : s.mode = .idle)
    (hs : s.Begun c.options.defaultParallel) (hadds : s.Adds c ⟨file, k + 1⟩ x t) :
    (s.run c file k (first :: more)).result = .ok t := by
  unfold Part.IsMadeBy at h
  cases hkind : classify first with
  | header name bracket =>
    rw [hkind] at h
    obtain ⟨head, body, b, inner, rfl, hopens, hencloses, rfl⟩ := h
    cases hadds with
    | procedure _ _ _ hnew =>
      rw [result_run_cons (.header name bracket hmode hkind hnew),
        result_run_append (run_of_opens hopens rfl)]
      exact run_of_encloses hencloses rfl (finishBody_ok_iff.2
        (.inr ⟨⟨name, _⟩, rfl, hs.contains_eq_false hmode hnew, rfl⟩))
  | left b =>
    rw [hkind] at h
    obtain ⟨inner, hencloses, rfl⟩ := h
    cases hadds
    rw [result_run_cons (.opening b hmode hkind)]
    exact run_of_encloses hencloses rfl (finishBody_ok_iff.2 (.inl ⟨rfl, rfl⟩))
  | command =>
    rw [hkind] at h
    obtain ⟨command, hcompletes, hscan, rfl⟩ := h
    cases hadds
    exact run_of_completes (.inr ⟨hmode, hkind, rfl, rfl⟩) hcompletes hscan hs
  | right b =>
    rw [hkind] at h
    exact h.elim
  | «include» target =>
    rw [hkind] at h
    obtain ⟨rfl, rfl⟩ := h
    cases hadds with
    | inclusion _ vars hread =>
      exact run_cons_ok.2 ⟨_, .included target vars hmode hkind hread, rfl⟩
  | empty =>
    rw [hkind] at h
    obtain ⟨rfl, rfl⟩ := h
    cases hadds
    exact run_cons_ok.2 ⟨s, .skip hmode (.inl hkind), rfl⟩
  | comment =>
    rw [hkind] at h
    obtain ⟨rfl, rfl⟩ := h
    cases hadds
    exact run_cons_ok.2 ⟨s, .skip hmode (.inr hkind), rfl⟩
  | «attribute» =>
    rw [hkind] at h
    obtain ⟨rfl, rfl⟩ := h
    cases hadds
    cases hread : attribute? first with
    | some a => exact run_cons_ok.2 ⟨_, .annotates a hmode hkind hread, rfl⟩
    | none => exact run_cons_ok.2 ⟨s, .malformed hmode hkind hread, rfl⟩
  | «variable» name value =>
    rw [hkind] at h
    obtain ⟨rfl, rfl⟩ := h
    cases hadds
    exact run_cons_ok.2 ⟨_, .assigns name value hmode hkind, rfl⟩

/-! ## Parts of a run -/

theorem exists_completes_of_run (h : (s.run c file k (line :: lines)).result = .ok u)
    (hreads : s.Reads line s' text) (hs : s.Begun parallel) (hidle : u.mode = .idle) :
    ∃ (command : Command) (more rest : List String), lines = more ++ rest ∧
      Completes command.text text more ∧
      Shell.tokenize command.text = .complete command.statements := by
  induction lines generalizing s s' line text k with
  | nil =>
    obtain ⟨v, hmove, hrun⟩ := run_cons_ok.1 h
    obtain rfl := Except.ok.inj hrun
    rcases hmove.of_reads hreads with ⟨-, rfl⟩ | ⟨statements, b, hscan, -, rfl⟩
    · cases hidle
    · exact ⟨⟨text, statements⟩, [], [], rfl, rfl, hscan⟩
  | cons l lines ih =>
    obtain ⟨v, hmove, hrun⟩ := run_cons_ok.1 h
    rcases hmove.of_reads hreads with ⟨hunfinished, rfl⟩ | ⟨statements, b, hscan, -, rfl⟩
    · obtain ⟨command, more, rest, rfl, hcompletes, hscan⟩ :=
        ih hrun (.inl ⟨text, rfl, rfl, rfl⟩) (hmove.begun hs)
      exact ⟨command, l :: more, rest, rfl, ⟨hunfinished, hcompletes⟩, hscan⟩
    · exact ⟨⟨text, statements⟩, [], l :: lines, rfl, rfl, hscan⟩

theorem exists_encloses_of_run (h : (s.run c file k lines).result = .ok u)
    (hmode : s.mode = .body owner (.new b)) (hidle : u.mode = .idle) :
    ∃ body rest inner t, lines = body ++ rest ∧ Encloses b body inner ∧
      ((s.withTable (Element.layoutAll b.isParallel s.pipeline.blocks inner).table).finishBody owner
        (Element.blockOf b inner s.pipeline.blocks)).result = .ok t ∧
      (t.run c file (k + body.length) rest).result = .ok u := by
  obtain ⟨b', t', v', k', rest', hcloses, -, -⟩ := exists_closes_of_run h hmode hidle
  obtain ⟨body, closing, rest, inner, rfl, hspells, hclosing, -⟩ := hcloses.beginsSpelled rfl
  have hfollows := Nest.follows_of_spells (n := .new b) hspells rfl s.pipeline.blocks
  have hcloses := Nest.moves_closed_after s.pipeline.blocks inner hclosing
  rw [result_run_append (run_of_follows file hfollows hmode rfl k)] at h
  obtain ⟨v, hmove, hrun⟩ := run_cons_ok.1 h
  rcases hmove.of_body rfl with ⟨n', t', hline, -⟩ | ⟨b', t', hline, hfinish⟩
  · cases hline.unique hcloses
  · obtain ⟨rfl, rfl⟩ := Advance.closed.inj (hline.unique hcloses)
    rw [result_finishBody_enter] at hfinish
    refine ⟨body ++ [closing], rest, inner, v, by simp, ⟨body, closing, rfl, hspells, hclosing⟩,
      hfinish, ?_⟩
    rw [List.length_append, ← Nat.add_assoc]
    exact hrun

theorem exists_opens_of_run {d : Declaration} {bracket : Option Bracket}
    (h : (s.run c file k lines).result = .ok u) (hmode : s.mode = headerMode d bracket)
    (hidle : u.mode = .idle) :
    ∃ b head rest, lines = head ++ rest ∧ Opens b bracket head ∧
      ((s.enter (.body (some d) (.new b))).run c file (k + head.length) rest).result = .ok u := by
  cases bracket with
  | some b =>
    refine ⟨b, [], lines, rfl, .behind, ?_⟩
    unfold enter
    rw [← show s.mode = .body (some d) (.new b) from hmode]
    exact h
  | none =>
    induction lines generalizing k with
    | nil =>
      obtain rfl := Except.ok.inj h
      cases hmode.symm.trans hidle
    | cons line lines ih =>
      obtain ⟨v, hmove, hrun⟩ := run_cons_ok.1 h
      rcases hmove.of_header hmode with ⟨hgap, rfl⟩ | ⟨b, hline, rfl⟩
      · obtain ⟨b, head, rest, rfl, hopens, hbehind⟩ := ih hrun
        refine ⟨b, line :: head, rest, rfl, .gap hgap hopens, ?_⟩
        rw [List.length_cons, Nat.add_comm head.length, ← Nat.add_assoc]
        exact hbehind
      · exact ⟨b, [line], lines, rfl, .bracket hline, hrun⟩

/-- The first of some lines and some others make up a part, and the run that leads over all lines
goes on behind it. -/
def BeginsWithPart (c : Setting) (file : String) (k : Nat) (first : String) (lines : List String)
    (s u : State) : Prop :=
  ∃ x more rest t, lines = more ++ rest ∧ x.IsMadeBy first more ∧ s.Adds c ⟨file, k + 1⟩ x t ∧
    (t.run c file (k + (more.length + 1)) rest).result = .ok u

theorem beginsWithPart_of_reads (h : (s.run c file k (first :: lines)).result = .ok u)
    (hreads : s.Reads first s' text) (hmode : s.mode = .idle)
    (hs : s.Begun c.options.defaultParallel) (hidle : u.mode = .idle) :
    BeginsWithPart c file k first lines s u := by
  obtain ⟨command, more, rest, rfl, hcompletes, hscan⟩ :=
    exists_completes_of_run h hreads hs hidle
  rcases hreads with ⟨v, hv, -⟩ | ⟨-, hkind, rfl, rfl⟩
  · cases hmode.symm.trans hv
  have hpart : Part.IsMadeBy first more (.element (.command command)) := by
    unfold Part.IsMadeBy
    rw [hkind]
    exact ⟨command, hcompletes, hscan, rfl⟩
  have hadds : s.Adds c ⟨file, k + 1⟩ (.element (.command command)) _ := .element _
  refine ⟨_, more, rest, _, rfl, hpart, hadds, ?_⟩
  rw [← List.cons_append, result_run_append (run_of_isMadeBy hpart hmode hs hadds)] at h
  exact h

theorem beginsWithPart_of_header {name : String} {bracket : Option Bracket}
    (hkind : classify first = .header name bracket)
    (hnew : s.pipeline.declarations.get? name = none)
    (h : (run { s with
        pipeline := s.pipeline.declare name ⟨file, k + 1⟩
        mode := headerMode ⟨name, ⟨file, k + 1⟩⟩ bracket } c file (k + 1) lines).result = .ok u)
    (hidle : u.mode = .idle) : BeginsWithPart c file k first lines s u := by
  obtain ⟨b, head, behind, rfl, hopens, hbehind⟩ := exists_opens_of_run h rfl hidle
  obtain ⟨body, rest, inner, t, rfl, hencloses, hfinish, hrest⟩ :=
    exists_encloses_of_run hbehind rfl hidle
  rcases finishBody_ok_iff.1 hfinish with ⟨hnone, -⟩ | ⟨d, hd, -, rfl⟩
  · cases hnone
  obtain rfl := Option.some.inj hd
  refine ⟨.procedure name b inner, head ++ body, rest, _, by simp, ?_,
    .procedure name b inner hnew, ?_⟩
  · unfold Part.IsMadeBy
    rw [hkind]
    exact ⟨head, body, b, inner, rfl, hopens, hencloses, rfl⟩
  · rw [List.length_append, show k + (head.length + body.length + 1) =
      k + 1 + head.length + body.length by omega]
    exact hrest

theorem beginsWithPart_of_opening (hkind : classify first = .left b)
    (h : ((s.drop.enter (.body none (.new b))).run c file (k + 1) lines).result = .ok u)
    (hidle : u.mode = .idle) : BeginsWithPart c file k first lines s u := by
  obtain ⟨body, rest, inner, t, rfl, hencloses, hfinish, hrest⟩ :=
    exists_encloses_of_run h rfl hidle
  rcases finishBody_ok_iff.1 hfinish with ⟨-, rfl⟩ | ⟨d, hd, -⟩
  · refine ⟨.element (.nested b inner), body, rest, _, rfl, ?_, .element _, ?_⟩
    · unfold Part.IsMadeBy
      rw [hkind]
      exact ⟨inner, hencloses, rfl⟩
    · rw [Nat.add_comm body.length, ← Nat.add_assoc]
      exact hrest
  · cases hd

/-- **Parts of a run.** A run between entries begins with a part. -/
theorem beginsWithPart_of_run (h : (s.run c file k (first :: lines)).result = .ok u)
    (hmode : s.mode = .idle) (hs : s.Begun c.options.defaultParallel) (hidle : u.mode = .idle) :
    BeginsWithPart c file k first lines s u := by
  obtain ⟨v, hmove, hrun⟩ := run_cons_ok.1 h
  have hsingle : ∀ x, x.IsMadeBy first [] → s.Adds c ⟨file, k + 1⟩ x v →
      BeginsWithPart c file k first lines s u :=
    fun x hpart hadds => ⟨x, [], lines, v, rfl, hpart, hadds, hrun⟩
  cases hmove with
  | unfinished s' text hreads => exact beginsWithPart_of_reads h hreads hmode hs hidle
  | command s' text statements b hreads => exact beginsWithPart_of_reads h hreads hmode hs hidle
  | header name bracket _ hkind hnew => exact beginsWithPart_of_header hkind hnew hrun hidle
  | opening b _ hkind => exact beginsWithPart_of_opening hkind hrun hidle
  | skip _ hkind =>
    refine hsingle .blank ?_ .blank
    unfold Part.IsMadeBy
    rcases hkind with hkind | hkind <;>
    · rw [hkind]
      exact ⟨rfl, rfl⟩
  | included target vars _ hkind hread =>
    refine hsingle (.inclusion target) ?_ (.inclusion target vars hread)
    unfold Part.IsMadeBy
    rw [hkind]
    exact ⟨rfl, rfl⟩
  | annotates a _ hkind hread =>
    refine hsingle (.attributeLine (some a)) ?_ (.attributeLine _)
    unfold Part.IsMadeBy
    rw [hkind, hread]
    exact ⟨rfl, rfl⟩
  | malformed _ hkind hread =>
    refine hsingle (.attributeLine none) ?_ (.attributeLine _)
    unfold Part.IsMadeBy
    rw [hkind, hread]
    exact ⟨rfl, rfl⟩
  | assigns name value _ hkind =>
    refine hsingle (.assignment name value) ?_ (.assignment name value)
    unfold Part.IsMadeBy
    rw [hkind]
    exact ⟨rfl, rfl⟩
  -- The other moves are made inside a part.
  | await d hd => cases hmode.symm.trans hd
  | begin d b hd => cases hmode.symm.trans hd
  | inside owner n n' t hbody => cases hmode.symm.trans hbody
  | closing n b t hbody => cases hmode.symm.trans hbody
  | procedure d n b t hbody => cases hmode.symm.trans hbody

/-- **Runs between entries.** Lines lead from one state between entries to another exactly when
they consist of entries that add up to it. -/
theorem run_ok_iff (hmode : s.mode = .idle) (hs : s.Begun c.options.defaultParallel) :
    (s.run c file k lines).result = .ok u ∧ u.mode = .idle ↔
      ∃ es, Consists k lines es ∧ s.AddsAll c file es u := by
  constructor
  · rintro ⟨h, hidle⟩
    induction hlength : lines.length using Nat.strongRecOn generalizing s k lines with
    | ind length ih =>
    subst hlength
    cases lines with
    | nil =>
      obtain rfl := Except.ok.inj h
      exact ⟨[], .nil k, rfl⟩
    | cons first lines =>
      obtain ⟨x, more, rest, t, rfl, hpart, hadds, hrun⟩ := beginsWithPart_of_run h hmode hs hidle
      have ht := begun_of_run (run_of_isMadeBy hpart hmode hs hadds) hs
      have hshorter : rest.length < (first :: (more ++ rest)).length := by
        rw [List.length_cons, List.length_append]
        omega
      obtain ⟨es, hes, hall⟩ := ih rest.length hshorter (hadds.idle hmode) ht hrun rfl
      exact ⟨⟨k + 1, x⟩ :: es, .cons hpart hes, t, hadds, hall⟩
  · rintro ⟨es, hes, hall⟩
    induction hes generalizing s with
    | nil k =>
      obtain rfl := hall
      exact ⟨rfl, hmode⟩
    | cons hpart _ ih =>
      obtain ⟨t, hadds, hall⟩ := hall
      have hrun := run_of_isMadeBy hpart hmode hs hadds
      obtain ⟨hbehind, hidle⟩ := ih (hadds.idle hmode) (begun_of_run hrun hs) hall
      refine ⟨?_, hidle⟩
      rw [← List.cons_append, result_run_append hrun]
      exact hbehind

end State

/-- **Documents.** A text loads exactly when its lines consist of entries that add up to the
document. -/
theorem loadText_ok_iff_consists {c : Setting} {file text : String} {d : Loaded} :
    (loadText c file text).result = .ok d ↔
      ∃ es u, Consists 0 (Text.lines text) es ∧ (State.start c.options).AddsAll c file es u ∧
        (u.finish ⟨file, (Text.lines text).length⟩).result = .ok d := by
  have hiff : ∀ u, ((State.start c.options).run c file 0 (Text.lines text)).result = .ok u ∧
      u.mode = .idle ↔
        ∃ es, Consists 0 (Text.lines text) es ∧ (State.start c.options).AddsAll c file es u :=
    fun u => State.run_ok_iff rfl (State.begun_start c.options)
  rw [loadText_ok_iff]
  constructor
  · rintro ⟨u, hrun, hfinish⟩
    obtain ⟨es, hes, hall⟩ := (hiff u).1 ⟨hrun, (State.finish_ok_iff.1 hfinish).1⟩
    exact ⟨es, u, hes, hall, hfinish⟩
  · rintro ⟨es, u, hes, hall, hfinish⟩
    exact ⟨u, ((hiff u).2 ⟨es, hes, hall⟩).1, hfinish⟩

end Runbook.Document
