import Runbook.Proofs.Document.Brackets
import Runbook.Proofs.Document.Parts

/-!
# Gaps between lines

A blank line or a comment does not show in what a document loads to, wherever it stands outside of
a command, and neither does a line end in front of the bracket of a header
(`loadText_of_respaced`). The lines below move down by one: a load whose headers are renumbered
makes the same moves at the renumbered lines (`State.Moves.renumber`).
-/

namespace Runbook

/-! ## Renumbered lines -/

/-- The position with its line renumbered. -/
def Position.renumber (f : Nat → Nat) (p : Position) : Position :=
  { p with line := f p.line }

def Pipeline.renumber (f : Nat → Nat) (p : Pipeline) : Pipeline :=
  { p with declarations := p.declarations.mapValues fun _ pos => pos.renumber f }

namespace Document

/-- The lines of a text when there is one line more below the first `k` ones. -/
def below (k line : Nat) : Nat :=
  if k < line then line + 1 else line

def Declaration.renumber (f : Nat → Nat) (d : Declaration) : Declaration :=
  { d with pos := d.pos.renumber f }

def Mode.renumber (f : Nat → Nat) : Mode → Mode
  | .idle => .idle
  | .command text => .command text
  | .header d => .header (d.renumber f)
  | .body owner nest => .body (owner.map (.renumber f)) nest

/-- The text of the command that is open. -/
def Mode.command? : Mode → Option String
  | .idle => none
  | .command text => some text
  | .header _ => none
  | .body _ nest => nest.command

namespace State

def renumber (f : Nat → Nat) (s : State) : State :=
  { s with pipeline := s.pipeline.renumber f, mode := s.mode.renumber f }

variable {c : Setting} {pos : Position} {file line : String} {rows : List String} {f : Nat → Nat}
  {n m : Nat} {s s' t : State}

theorem Reads.renumber {text : String} (h : s.Reads line s' text) (f : Nat → Nat) :
    (s.renumber f).Reads line (s'.renumber f) text := by
  rcases h with ⟨u, hmode, rfl, htext⟩ | ⟨hmode, hline, rfl, htext⟩
  · exact .inl ⟨u, by simp [State.renumber, hmode, Mode.renumber], rfl, htext⟩
  · exact .inr ⟨by simp [State.renumber, hmode, Mode.renumber], hline, rfl, htext⟩

/-- **Moves of a renumbered load.** A line makes the same move when it and the headers above it are
renumbered. -/
theorem Moves.renumber (h : s.Moves c pos line t) (f : Nat → Nat) :
    (s.renumber f).Moves c (pos.renumber f) line (t.renumber f) := by
  have hmode : ∀ {m : Mode}, s.mode = m → (s.renumber f).mode = m.renumber f := by
    intro m hm
    rw [← hm]
    rfl
  cases h with
  | skip hm hline => exact .skip (hmode hm) hline
  | included target vars hm hline hread =>
    rw [readInclude_assigned_iff] at hread
    exact .included target vars (hmode hm) hline (readInclude_assigned_iff.2 hread)
  | header name bracket hm hline hnew =>
    have hfree : (s.renumber f).pipeline.declarations.get? name = none := by
      simp [State.renumber, Pipeline.renumber, hnew]
    have hmove : (s.renumber f).Moves c (pos.renumber f) line _ :=
      .header name bracket (hmode hm) hline hfree
    simp only [State.renumber, Pipeline.renumber, Pipeline.declare, ByName.mapValues_insert]
      at hmove ⊢
    cases bracket <;> exact hmove
  | opening b hm hline => exact .opening b (hmode hm) hline
  | annotates a hm hline hread => exact .annotates a (hmode hm) hline hread
  | malformed hm hline hread => exact .malformed (hmode hm) hline hread
  | assigns name value hm hline => exact .assigns name value (hmode hm) hline
  | unfinished s' text hreads hscan => exact .unfinished _ text (hreads.renumber f) hscan
  | command s' text statements b hreads hscan hdefault =>
    exact .command _ text statements b (hreads.renumber f) hscan hdefault
  | await d hm hline => exact .await (d.renumber f) (hmode hm) hline
  | begin d b hm hcomment hline => exact .begin (d.renumber f) b (hmode hm) hcomment hline
  | inside owner n n' u hm hline => exact .inside (owner.map (.renumber f)) n n' u (hmode hm) hline
  | closing n b u hm hline => exact .closing n b u (hmode hm) hline
  | procedure d n b u hm hline hnew =>
    exact .procedure (d.renumber f) n b u (hmode hm) hline hnew

theorem run_renumber (h : (s.run c file n rows).result = .ok t)
    (hf : ∀ line, n < line → f line = line + m) :
    ((s.renumber f).run c file (n + m) rows).result = .ok (t.renumber f) := by
  induction rows generalizing s n with
  | nil =>
    obtain rfl := Except.ok.inj h
    rfl
  | cons row rows ih =>
    obtain ⟨u, hmove, hrun⟩ := run_cons_ok.1 h
    have hmoved := hmove.renumber f
    have hrest := ih hrun fun line hline => hf line (by omega)
    have hpos : Position.renumber f ⟨file, n + 1⟩ = ⟨file, n + m + 1⟩ := by
      unfold Position.renumber
      rw [hf (n + 1) (by omega)]
      congr 1
      omega
    rw [hpos] at hmoved
    rw [show n + 1 + m = n + m + 1 by omega] at hrest
    exact run_cons_ok.2 ⟨_, hmoved, hrest⟩

theorem finish_renumber {last last' : Position} {d : Loaded} (h : (s.finish last).result = .ok d)
    (f : Nat → Nat) :
    ((s.renumber f).finish last').result = .ok { d with pipeline := d.pipeline.renumber f } := by
  obtain ⟨hmode, hsize, rfl⟩ := finish_ok_iff.1 h
  exact finish_ok_iff.2 ⟨by simp [State.renumber, hmode, Mode.renumber], hsize, rfl⟩

/-! ## The lines above -/

/-- The procedure that is being read is declared, at the line of its header. -/
def OwnerDeclared (s : State) : Prop :=
  ∀ d, s.mode.owner? = some d → s.pipeline.declarations.get? d.name = some d.pos

theorem Moves.ownerDeclared (h : s.Moves c pos line t) (hs : s.OwnerDeclared) :
    t.OwnerDeclared := by
  unfold OwnerDeclared at hs
  cases h with
  | header name bracket hmode hline hnew =>
    intro d hd
    obtain rfl : d = ⟨name, pos⟩ := by
      cases bracket <;> exact (Option.some.inj hd).symm
    exact ByName.get?_insert_self _ name pos
  | begin d b hmode =>
    rw [hmode] at hs
    exact hs
  | inside owner n n' u hmode =>
    rw [hmode] at hs
    exact hs
  | skip => exact hs
  | included => exact hs
  | annotates => exact hs
  | malformed => exact hs
  | assigns => exact hs
  | await => exact hs
  -- Behind the other moves no procedure is being read.
  | opening => exact nofun
  | unfinished => exact nofun
  | command => exact nofun
  | closing => exact nofun
  | procedure => exact nofun

/-- A load does not change when only lines below it are renumbered. -/
theorem renumber_eq_self (h : ((start c.options).run c file 0 rows).result = .ok s)
    (hf : ∀ line ≤ rows.length, f line = line) : s.renumber f = s := by
  have hdeclared : ∀ name p, s.pipeline.declarations.get? name = some p → p.renumber f = p := by
    intro name p hp
    rcases declared_of_run h hp with hnone | ⟨i, row, bracket, hrow, -, rfl⟩
    · cases hnone
    · have hi := (List.getElem?_eq_some_iff.1 hrow).1
      unfold Position.renumber
      rw [hf (0 + (i + 1)) (by omega)]
  have howner : ∀ d, s.mode.owner? = some d → d.renumber f = d := by
    intro d hd
    have hd' := run_invariant (P := OwnerDeclared) (fun _ _ _ _ _ hmove => hmove.ownerDeclared) h
      (by nofun) d hd
    unfold Declaration.renumber
    rw [hdeclared d.name d.pos hd']
  have hdeclarations : s.pipeline.declarations.mapValues (fun _ p => p.renumber f) =
      s.pipeline.declarations := by
    apply ByName.ext_get?
    intro name
    rw [ByName.get?_mapValues]
    cases hp : s.pipeline.declarations.get? name with
    | none => rfl
    | some p => exact congrArg some (hdeclared name p hp)
  have hmode : s.mode.renumber f = s.mode := by
    cases hm : s.mode with
    | idle => rfl
    | command text => rfl
    | header d =>
      rw [Mode.renumber, howner d (by rw [hm]; rfl)]
    | body owner n =>
      cases owner with
      | none => rfl
      | some d =>
        rw [Mode.renumber, Option.map_some, howner d (by rw [hm]; rfl)]
  unfold State.renumber Pipeline.renumber
  rw [hdeclarations, hmode]

/-- One line further down, the lines behind a load lead to the same load, but for the lines of the
declarations that they add. -/
theorem run_below {above : List String}
    (hs : ((start c.options).run c file 0 above).result = .ok s) (hn : above.length = n)
    (h : (s.run c file n rows).result = .ok t) :
    (s.run c file (n + 1) rows).result = .ok (t.renumber (below n)) := by
  have hsame : s.renumber (below n) = s :=
    renumber_eq_self hs fun l hl => if_neg (Nat.not_lt.2 (hn ▸ hl))
  have hmoved := run_renumber (f := below n) h fun l hl => if_pos hl
  rwa [hsame] at hmoved

/-! ## Gaps -/

theorem mark?_of_isGap (h : IsGap line) : mark? line = none := by
  rw [mark?_eq_none_iff, Option.eq_none_iff_forall_ne_some, Option.eq_none_iff_forall_ne_some]
  refine ⟨fun b hb => ?_, fun b hb => ?_⟩
  · obtain ⟨hempty, hcomment⟩ := not_skip_of_leftBracket? hb
    simp [IsGap, hempty, hcomment] at h
  · obtain ⟨hempty, hcomment⟩ := not_skip_of_rightBracket? hb
    simp [IsGap, hempty, hcomment] at h

theorem classify_of_isGap (h : IsGap line) :
    classify line = .empty ∨ classify line = .comment := by
  have hplain : IsPlain line := h.imp_right fun hcomment => .inl hcomment.2
  obtain ⟨hinclude, hheader⟩ := hplain.not_entry
  obtain ⟨hleft, hright⟩ := mark?_eq_none_iff.1 (mark?_of_isGap h)
  unfold classify
  rw [hinclude, hheader, hleft, hright]
  rcases h with hempty | ⟨hattribute, hcomment⟩
  · simp [hempty]
  · by_cases hempty : isEmptyLine line = true
    · simp [hempty]
    · simp [hempty, hattribute, hcomment]

theorem moves_of_isGap (hline : IsGap line) (hs : s.mode.command? = none) :
    s.Moves c pos line s := by
  cases hmode : s.mode with
  | idle => exact .skip hmode (classify_of_isGap hline)
  | command text =>
    rw [hmode] at hs
    cases hs
  | header d => exact .await d hmode hline
  | body owner n =>
    rw [hmode] at hs
    obtain ⟨hleft, hright⟩ := mark?_eq_none_iff.1 (mark?_of_isGap hline)
    have hsame : (s.withTable s.pipeline.blocks).enter (.body owner n) = s := by
      rw [← hmode]
      rfl
    have hmove : s.Moves c pos line _ := .inside owner n n s.pipeline.blocks hmode
      (.skip hs hright hleft (hline.imp_right And.right))
    rwa [hsame] at hmove

end State

/-! ## Documents -/

section Documents

variable {c : Setting} {file : String} {k : Nat} {text text' : String} {d : Loaded}

/-- No command is open behind these lines. -/
def IsOutsideCommand (c : Setting) (file : String) (lines : List String) : Prop :=
  ∀ s, ((State.start c.options).run c file 0 lines).result = .ok s → s.mode.command? = none

/-- Behind these lines an entry starts. -/
def IsBetweenEntries (c : Setting) (file : String) (lines : List String) : Prop :=
  ∀ s, ((State.start c.options).run c file 0 lines).result = .ok s → s.mode = .idle

theorem isOutsideCommand_of_map {lines : List String}
    (h : ((State.start c.options).run c file 0 lines).result.map (·.mode.command?) = .ok none) :
    IsOutsideCommand c file lines := by
  intro s hs
  rw [hs] at h
  exact Except.ok.inj h

theorem isBetweenEntries_of_map {lines : List String}
    (h : ((State.start c.options).run c file 0 lines).result.map State.mode = .ok .idle) :
    IsBetweenEntries c file lines := by
  intro s hs
  rw [hs] at h
  exact Except.ok.inj h

/-- The bracket at the end of a header is cut off, with the blanks around it or without them, and
stands on a line of its own. -/
def MovesBracket (header bare own : String) : Prop :=
  ∃ name b gap tail, classify header = .header name (some b) ∧
    header.toList = bare.toList ++ gap ++ b.opening.toList ++ tail ∧
    (∀ c ∈ gap, Text.isBlank c = true) ∧ (∀ c ∈ tail, Text.isBlank c = true) ∧
    leftBracket? own = some b

/-- The second lines are the first ones with one line more below the first `k` ones: a blank line
or a comment outside of a command, or the bracket of the header above it. -/
inductive Respaced (c : Setting) (file : String) : Nat → List String → List String → Prop
  | gap {before after : List String} {line : String} (houtside : IsOutsideCommand c file before)
    (hline : IsGap line) :
    Respaced c file before.length (before ++ after) (before ++ line :: after)
  | bracket {before after : List String} {header bare own : String}
    (hbetween : IsBetweenEntries c file before) (hmoves : MovesBracket header bare own) :
    Respaced c file (before.length + 1) (before ++ header :: after) (before ++ bare :: own :: after)

theorem run_gap {before after : List String} {line : String} {u : State}
    (houtside : IsOutsideCommand c file before) (hline : IsGap line)
    (h : ((State.start c.options).run c file 0 (before ++ after)).result = .ok u) :
    ((State.start c.options).run c file 0 (before ++ line :: after)).result =
      .ok (u.renumber (below before.length)) := by
  obtain ⟨s, hbefore, hafter⟩ := State.exists_of_run_append h
  rw [State.result_run_append hbefore,
    State.result_run_cons (State.moves_of_isGap hline (houtside s hbefore)), Nat.zero_add]
  rw [Nat.zero_add] at hafter
  exact State.run_below hbefore rfl hafter

theorem run_bracket {before after : List String} {header bare own : String} {u : State}
    (hbetween : IsBetweenEntries c file before) (hmoves : MovesBracket header bare own)
    (h : ((State.start c.options).run c file 0 (before ++ header :: after)).result = .ok u) :
    ((State.start c.options).run c file 0 (before ++ bare :: own :: after)).result =
      .ok (u.renumber (below (before.length + 1))) := by
  obtain ⟨name, b, gap, tail, hheader, htext, hgap, htail, hown⟩ := hmoves
  obtain ⟨s, hbefore, hafter⟩ := State.exists_of_run_append h
  have hmode := hbetween s hbefore
  have hnew : s.pipeline.declarations.get? name = none := by
    cases hdeclared : s.pipeline.declarations.get? name with
    | none => rfl
    | some previous =>
      rw [State.run_of_declared hmode hheader hdeclared after] at hafter
      cases hafter
  have hbare := classify_of_bracket_cut hheader htext hgap htail
  have hwhole : s.Moves c ⟨file, 0 + before.length + 1⟩ header _ :=
    .header name (some b) hmode hheader hnew
  -- Behind the bracket both texts have led to the same load.
  have hthrough := (State.result_run_append hbefore [header]).trans
    (State.run_cons_ok.2 ⟨_, hwhole, rfl⟩)
  rw [State.result_run_cons hwhole] at hafter
  rw [State.result_run_append hbefore,
    State.result_run_cons (.header name none hmode hbare hnew), ← List.singleton_append,
    State.result_run_append (State.run_of_opens (.bracket hown) rfl)]
  have hbelow := State.run_below hthrough (by simp) hafter
  simp only [Nat.zero_add] at hbelow ⊢
  exact hbelow

theorem Respaced.run {lines lines' : List String} {u : State}
    (h : Respaced c file k lines lines')
    (hrun : ((State.start c.options).run c file 0 lines).result = .ok u) :
    ((State.start c.options).run c file 0 lines').result = .ok (u.renumber (below k)) := by
  cases h with
  | gap houtside hline => exact run_gap houtside hline hrun
  | bracket hbetween hmoves => exact run_bracket hbetween hmoves hrun

/-- **Insignificant lines.** When a document loads, it loads to the same blocks, procedures and
variables with a blank line or a comment more, anywhere outside of a command, and with the bracket
of a header on a line of its own. Only the declarations below move by one line. -/
theorem loadText_of_respaced (h : Respaced c file k (Text.lines text) (Text.lines text'))
    (hd : (loadText c file text).result = .ok d) :
    (loadText c file text').result = .ok { d with pipeline := d.pipeline.renumber (below k) } := by
  obtain ⟨u, hrun, hfinish⟩ := loadText_ok_iff.1 hd
  exact loadText_ok_iff.2 ⟨u.renumber (below k), h.run hrun, State.finish_renumber hfinish _⟩

/-- A document with an attribute, two procedures and a command on two lines. -/
def denseDocument : String :=
  Text.unlines ["#@ desc: all", "all() \x7b\x7b", "\tmake a;\\", "\tmake b", "\x7d\x7d",
    "sub() \x7b", "\tmake c", "\x7d", "x = 1"]

/-- The document with a comment in the block. -/
def commentedDocument : String :=
  Text.unlines ["#@ desc: all", "all() \x7b\x7b", "\t# both", "\tmake a;\\", "\tmake b", "\x7d\x7d",
    "sub() \x7b", "\tmake c", "\x7d", "x = 1"]

/-- The document with the first bracket on a line of its own. -/
def unhookedDocument : String :=
  Text.unlines ["#@ desc: all", "all()", "\x7b\x7b", "\tmake a;\\", "\tmake b", "\x7d\x7d",
    "sub() \x7b", "\tmake c", "\x7d", "x = 1"]

/-- What the documents load to, when the second procedure is declared at this line. -/
def denseLoaded (line : Nat) : Loaded where
  pipeline :=
    ⟨#[.empty false, ⟨[.ofLine "make a", .ofLine "make b"], false⟩, ⟨[.block 1], true⟩,
        ⟨[.ofLine "make c"], false⟩],
      .ofList [("all", ⟨"all", 2, [("desc", "all")]⟩), ("sub", ⟨"sub", 3, []⟩)],
      .ofList [("all", ⟨"doc.pipe", 2⟩), ("sub", ⟨"doc.pipe", line⟩)]⟩
  assigned := .ofList [("x", "1")]

/-- Both changes move the second procedure from line 6 to line 7, and nothing else. -/
theorem loadText_of_respaced_denseDocument :
    (loadText .alone "doc.pipe" denseDocument).result = .ok (denseLoaded 6) ∧
      (loadText .alone "doc.pipe" commentedDocument).result = .ok (denseLoaded 7) ∧
      (loadText .alone "doc.pipe" unhookedDocument).result = .ok (denseLoaded 7) := by
  have hdense : (loadText .alone "doc.pipe" denseDocument).result = .ok (denseLoaded 6) := by
    decide +kernel
  have hgap : Respaced .alone "doc.pipe" 2 (Text.lines denseDocument)
      (Text.lines commentedDocument) := by
    have hlines : Text.lines commentedDocument =
        (Text.lines denseDocument).take 2 ++ "\t# both" :: (Text.lines denseDocument).drop 2 := by
      decide +kernel
    have houtside : IsOutsideCommand .alone "doc.pipe" ((Text.lines denseDocument).take 2) :=
      isOutsideCommand_of_map (by decide +kernel)
    have hcomment : IsGap "\t# both" := .inr ⟨by decide +kernel, by decide +kernel⟩
    have hinserted :=
      @Respaced.gap _ _ _ ((Text.lines denseDocument).drop 2) _ houtside hcomment
    rwa [← hlines, List.take_append_drop] at hinserted
  have hbracket : Respaced .alone "doc.pipe" 2 (Text.lines denseDocument)
      (Text.lines unhookedDocument) := by
    have hmoves : MovesBracket "all() \x7b\x7b" "all()" "\x7b\x7b" :=
      ⟨"all", .parallel, [' '], [], by decide +kernel, by decide +kernel,
        List.forall_mem_singleton.2 (by decide), by simp, by decide +kernel⟩
    have hlines : Text.lines denseDocument = (Text.lines denseDocument).take 1 ++
        "all() \x7b\x7b" :: (Text.lines denseDocument).drop 2 := by
      decide +kernel
    have hlines' : Text.lines unhookedDocument = (Text.lines denseDocument).take 1 ++
        "all()" :: "\x7b\x7b" :: (Text.lines denseDocument).drop 2 := by
      decide +kernel
    have hbetween : IsBetweenEntries .alone "doc.pipe" ((Text.lines denseDocument).take 1) :=
      isBetweenEntries_of_map (by decide +kernel)
    rw [hlines, hlines']
    exact .bracket hbetween hmoves
  have hcommented := loadText_of_respaced hgap hdense
  have hunhooked := loadText_of_respaced hbracket hdense
  have hmoved : { denseLoaded 6 with pipeline := (denseLoaded 6).pipeline.renumber (below 2) } =
      denseLoaded 7 := by
    decide +kernel
  rw [hmoved] at hcommented hunhooked
  exact ⟨hdense, hcommented, hunhooked⟩

end Documents

end Document

end Runbook
