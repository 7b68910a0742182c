import Runbook.Document.Load

/-!
# What one line does

`Nest.Moves` and `State.Moves` list what a line can do to the open blocks and to a load, each case
with what the line must be for it. A step succeeds exactly with one of these moves
(`Nest.step_ok_iff`, `State.step_ok_iff`), so an invariant of a load needs one argument for each
case, and a line whose form is known is read by naming its case.
-/

namespace Runbook.Document

/-! ## Lines inside brackets -/

namespace Nest

/-- A line that a command begins with, when none is open: no bracket, no blank line, no comment. -/
def StartsCommand (line : String) : Prop :=
  rightBracket? line = none ∧ leftBracket? line = none ∧
    ¬(isEmptyLine line = true ∨ isCommentLine line = true)

/-- The line goes on with the open command or begins one, which has this text then. -/
def Reads (n : Nest) (line text : String) : Prop :=
  (∃ u, n.command = some u ∧ text = Shell.joinLine u line) ∨
    (n.command = none ∧ StartsCommand line ∧ text = Shell.firstLine line)

/-- What a line inside brackets can do. -/
inductive Moves (n : Nest) (line : String) (t : Table) : Advance → Prop
  /-- A blank line or a comment. -/
  | skip (hcommand : n.command = none) (hright : rightBracket? line = none)
    (hleft : leftBracket? line = none)
    (hline : isEmptyLine line = true ∨ isCommentLine line = true) :
    Moves n line t (.inside n t)
  /-- A command that goes on. -/
  | unfinished (text : String) (hreads : n.Reads line text)
    (hscan : Shell.tokenize text = .unfinished) :
    Moves n line t (.inside { n with command := some text } t)
  /-- A command that is complete. -/
  | command (text : String) (statements : List Shell.Statement) (hreads : n.Reads line text)
    (hscan : Shell.tokenize text = .complete statements) :
    Moves n line t (.inside
      { n with
        inner := n.inner.append
          ((Placement.ofCommand text statements n.inner.bracket.isParallel).itemsIn t)
        command := none }
      ((Placement.ofCommand text statements n.inner.bracket.isParallel).addTo t))
  /-- An opening bracket. -/
  | opening (b : Bracket) (hcommand : n.command = none) (hright : rightBracket? line = none)
    (hline : leftBracket? line = some b) :
    Moves n line t (.inside ⟨.new b, n.inner :: n.outer, none⟩ t)
  /-- The closing bracket of a nested block. -/
  | nested (f : Frame) (fs : List Frame) (hcommand : n.command = none) (houter : n.outer = f :: fs)
    (hline : rightBracket? line = some n.inner.bracket) :
    Moves n line t (.inside ⟨f.append [.block t.size], fs, none⟩ (t.push n.inner.block))
  /-- The closing bracket of the outermost block. -/
  | closing (hcommand : n.command = none) (houter : n.outer = [])
    (hline : rightBracket? line = some n.inner.bracket) :
    Moves n line t (.closed n.inner.block t)

theorem readCommand_ok_iff {n : Nest} {t : Table} {pos : Position} {text : String} {a : Advance} :
    (n.readCommand t pos text).result = .ok a ↔
      (Shell.tokenize text = .unfinished ∧ a = .inside { n with command := some text } t) ∨
      ∃ statements, Shell.tokenize text = .complete statements ∧
        a = .inside
          { n with
            inner := n.inner.append
              ((Placement.ofCommand text statements n.inner.bracket.isParallel).itemsIn t)
            command := none }
          ((Placement.ofCommand text statements n.inner.bracket.isParallel).addTo t) := by
  unfold readCommand commandAt
  cases hscan : Shell.tokenize text with
  | complete statements => simp [Except.bind, Except.map, eq_comm]
  | unfinished => simp [Except.bind, eq_comm]
  | malformed m => simp [Except.bind]

theorem moves_of_readCommand {n : Nest} {t : Table} {pos : Position} {line text : String}
    {a : Advance} (hreads : n.Reads line text) (h : (n.readCommand t pos text).result = .ok a) :
    n.Moves line t a := by
  rcases readCommand_ok_iff.1 h with ⟨hscan, rfl⟩ | ⟨statements, hscan, rfl⟩
  · exact .unfinished text hreads hscan
  · exact .command text statements hreads hscan

theorem step_of_reads {n : Nest} {t : Table} {pos : Position} {line text : String}
    (h : n.Reads line text) : n.step t pos line = n.readCommand t pos text := by
  unfold step
  rcases h with ⟨u, hcommand, rfl⟩ | ⟨hcommand, ⟨hright, hleft, hline⟩, rfl⟩
  · rw [hcommand]
  · simp only [hcommand, hright, hleft, if_neg hline]

theorem moves_of_step {n : Nest} {t : Table} {pos : Position} {line : String} {a : Advance}
    (h : (n.step t pos line).result = .ok a) : n.Moves line t a := by
  unfold step at h
  split at h
  · next u hcommand =>
    exact moves_of_readCommand (.inl ⟨u, hcommand, rfl⟩) h
  next hcommand =>
  split at h
  · next found hright =>
    split at h
    · next hfound =>
      subst hfound
      obtain rfl := Except.ok.inj h
      unfold close
      split
      · next houter => exact .closing hcommand houter hright
      · next f fs houter =>
        rw [hcommand]
        exact .nested f fs hcommand houter hright
    · cases h
  next hright =>
  split at h
  · next b hleft =>
    obtain rfl := Except.ok.inj h
    exact .opening b hcommand hright hleft
  next hleft =>
  split at h
  · next hline =>
    obtain rfl := Except.ok.inj h
    exact .skip hcommand hright hleft hline
  · next hline =>
    exact moves_of_readCommand (.inr ⟨hcommand, ⟨hright, hleft, hline⟩, rfl⟩) h

theorem step_of_moves {n : Nest} {t : Table} {pos : Position} {line : String} {a : Advance}
    (h : n.Moves line t a) : (n.step t pos line).result = .ok a := by
  cases h with
  | skip hcommand hright hleft hline =>
    unfold step
    simp only [hcommand, hright, hleft, if_pos hline, Logged.result_pure]
  | unfinished text hreads hscan =>
    rw [step_of_reads hreads, readCommand_ok_iff]
    exact .inl ⟨hscan, rfl⟩
  | command text statements hreads hscan =>
    rw [step_of_reads hreads, readCommand_ok_iff]
    exact .inr ⟨statements, hscan, rfl⟩
  | opening b hcommand hright hline =>
    unfold step
    simp only [hcommand, hright, hline, Logged.result_pure]
  | nested f fs hcommand houter hline =>
    unfold step close
    simp only [hcommand, hline, houter, if_true, Logged.result_pure]
  | closing hcommand houter hline =>
    unfold step close
    simp only [hcommand, hline, houter, if_true, Logged.result_pure]

/-- **Steps inside brackets.** A step that succeeds is one of the moves, and every move is a
step. -/
theorem step_ok_iff {n : Nest} {t : Table} {pos : Position} {line : String} {a : Advance} :
    (n.step t pos line).result = .ok a ↔ n.Moves line t a :=
  ⟨moves_of_step, step_of_moves⟩

end Nest

/-! ## Lines of a document -/

namespace State

/-- The state when the attributes that wait for a procedure are dropped. -/
def drop (s : State) : State :=
  { s with pending := [] }

/-- The block that a header without bracket waits for, or the first line inside a bracket behind
the header. -/
def headerMode (d : Declaration) : Option Bracket → Mode
  | some b => .body (some d) (.new b)
  | none => .header d

/-- The line goes on with the open command of the default block or begins one: the state it is read
in, and the text of the command then. -/
def Reads (s : State) (line : String) (s' : State) (text : String) : Prop :=
  (∃ u, s.mode = .command u ∧ s' = s ∧ text = Shell.joinLine u line) ∨
    (s.mode = .idle ∧ classify line = .command ∧ s' = s.drop ∧ text = Shell.firstLine line)

/-- The state when the body of a procedure is read: the table gets the block, and the procedure the
attributes that waited for it. -/
def withProcedure (s : State) (name : String) (b : Block) (t : Table) : State :=
  { s with
    pipeline :=
      { s.pipeline with
        blocks := t.push b
        procedures := s.pipeline.procedures.insert name ⟨name, t.size, s.pending.reverse⟩ }
    pending := []
    mode := .idle }

/-- What a line of a document can do. -/
inductive Moves (c : Setting) (pos : Position) (line : String) (s : State) : State → Prop
  /-- A blank line or a comment between entries. -/
  | skip (hmode : s.mode = .idle) (hline : classify line = .empty ∨ classify line = .comment) :
    Moves c pos line s s
  /-- An include, whose file may change the variables. -/
  | included (target : String) (vars : Variables) (hmode : s.mode = .idle)
    (hline : classify line = .include target)
    (hread : (s.drop.readInclude c pos target).result = .ok { s.drop with assigned := vars }) :
    Moves c pos line s { s.drop with assigned := vars }
  /-- A header with a new name. -/
  | header (name : String) (bracket : Option Bracket) (hmode : s.mode = .idle)
    (hline : classify line = .header name bracket)
    (hnew : s.pipeline.declarations.get? name = none) :
    Moves c pos line s
      { s with pipeline := s.pipeline.declare name pos, mode := headerMode ⟨name, pos⟩ bracket }
  /-- The opening bracket of a block that the default block runs. -/
  | opening (b : Bracket) (hmode : s.mode = .idle) (hline : classify line = .left b) :
    Moves c pos line s (s.drop.enter (.body none (.new b)))
  /-- A well-formed attribute. -/
  | annotates (a : String × String) (hmode : s.mode = .idle) (hline : classify line = .attribute)
    (hread : attribute? line = some a) :
    Moves c pos line s { s with pending := a :: s.pending }
  /-- A malformed attribute. -/
  | malformed (hmode : s.mode = .idle) (hline : classify line = .attribute)
    (hread : attribute? line = none) :
    Moves c pos line s s
  /-- An assignment. -/
  | assigns (name value : String) (hmode : s.mode = .idle)
    (hline : classify line = .variable name value) :
    Moves c pos line s { s.drop with assigned := s.assigned.insert name value }
  /-- A command that goes on. -/
  | unfinished (s' : State) (text : String) (hreads : s.Reads line s' text)
    (hscan : Shell.tokenize text = .unfinished) :
    Moves c pos line s (s'.enter (.command text))
  /-- A command that is complete. -/
  | command (s' : State) (text : String) (statements : List Shell.Statement) (b : Block)
    (hreads : s.Reads line s' text) (hscan : Shell.tokenize text = .complete statements)
    (hdefault : s.pipeline.defaultBlock = .ok b) :
    Moves c pos line s
      ((s'.withTable
          ((Placement.ofCommand text statements b.parallel).addTo s.pipeline.blocks)).appendDefault
        ((Placement.ofCommand text statements b.parallel).itemsIn s.pipeline.blocks))
  /-- A blank line or a comment behind a header. -/
  | await (d : Declaration) (hmode : s.mode = .header d)
    (hline : isEmptyLine line = true ∨ (isAttributeLine line = false ∧ isCommentLine line = true)) :
    Moves c pos line s s
  /-- The opening bracket behind a header. -/
  | begin (d : Declaration) (b : Bracket) (hmode : s.mode = .header d)
    (hcomment :
      ¬(isEmptyLine line = true ∨ isAttributeLine line = true ∨ isCommentLine line = true))
    (hline : leftBracket? line = some b) :
    Moves c pos line s (s.enter (.body (some d) (.new b)))
  /-- A line inside a block. -/
  | inside (owner : Option Declaration) (n n' : Nest) (t : Table) (hmode : s.mode = .body owner n)
    (hline : n.Moves line s.pipeline.blocks (.inside n' t)) :
    Moves c pos line s ((s.withTable t).enter (.body owner n'))
  /-- The end of a block that the default block runs. -/
  | closing (n : Nest) (b : Block) (t : Table) (hmode : s.mode = .body none n)
    (hline : n.Moves line s.pipeline.blocks (.closed b t)) :
    Moves c pos line s ((s.withTable (t.push b)).appendDefault [.block t.size])
  /-- The end of a procedure. -/
  | procedure (d : Declaration) (n : Nest) (b : Block) (t : Table)
    (hmode : s.mode = .body (some d) n) (hline : n.Moves line s.pipeline.blocks (.closed b t))
    (hnew : s.pipeline.procedures.contains d.name = false) :
    Moves c pos line s (s.withProcedure d.name b t)

variable {c : Setting} {pos : Position} {line : String} {s s' t : State}

@[simp] theorem result_dropPending (kind : LineKind) :
    (s.dropPending pos kind).result = .ok (if keepsPending kind then s else s.drop) := by
  unfold dropPending
  by_cases hkeep : keepsPending kind = true
  · simp [hkeep]
  · by_cases hempty : s.pending = []
    · have hdrop : s.drop = s := by
        unfold drop
        rw [← hempty]
      simp [hempty, hdrop]
    · simp [hkeep, hempty, drop, Except.map]

/-- The variables are these when the file that an include names is read, or passed over. -/
def Includes (c : Setting) (file target : String) (vars vars' : Variables) : Prop :=
  let path := Files.Path.join (c.files.naming.directory file) target
  if c.files.isPresent path then
    (readConfigFile path (c.files.read path) vars).all.result = .ok vars'
  else c.options.strictIncludes = false ∧ vars' = vars

theorem readInclude_ok_iff {target : String} :
    (s.readInclude c pos target).result = .ok t ↔
      ∃ vars, Includes c pos.file target s.assigned vars ∧ t = { s with assigned := vars } := by
  unfold readInclude Includes
  dsimp only
  generalize Files.Path.join (c.files.naming.directory pos.file) target = path
  by_cases hpresent : c.files.isPresent path = true
  · cases hread : (readConfigFile path (c.files.read path) s.assigned).all.result with
    | ok vars => simp [hpresent, hread, Except.map, Except.bind, eq_comm]
    | error e => simp [hpresent, hread, Except.map, Except.bind]
  · by_cases hstrict : c.options.strictIncludes = true
    · simp [hpresent, hstrict]
    · simp [hpresent, hstrict, Except.map]
      exact eq_comm

theorem readInclude_assigned_iff {target : String} {vars : Variables} :
    (s.readInclude c pos target).result = .ok { s with assigned := vars } ↔
      Includes c pos.file target s.assigned vars := by
  rw [readInclude_ok_iff]
  constructor
  · rintro ⟨vars', hreads, hsame⟩
    obtain rfl : vars = vars' := congrArg State.assigned hsame
    exact hreads
  · intro hreads
    exact ⟨vars, hreads, rfl⟩

theorem readCommand_ok_iff {text : String} :
    (s.readCommand pos text).result = .ok t ↔
      (Shell.tokenize text = .unfinished ∧ t = s.enter (.command text)) ∨
      ∃ statements b, Shell.tokenize text = .complete statements ∧
        s.pipeline.defaultBlock = .ok b ∧
        t = (s.withTable
          ((Placement.ofCommand text statements b.parallel).addTo s.pipeline.blocks)).appendDefault
          ((Placement.ofCommand text statements b.parallel).itemsIn s.pipeline.blocks) := by
  unfold readCommand commandAt
  cases hscan : Shell.tokenize text with
  | complete statements =>
    cases hb : s.pipeline.defaultBlock with
    | ok b =>
      have hok : (Except.ok b).mapError LoadError.misuse = .ok b := rfl
      simp [Except.bind, Except.map, hok, eq_comm]
    | error m =>
      have herror : (Except.error m : Except _ Block).mapError LoadError.misuse =
        .error (.misuse m) := rfl
      simp [Except.bind, herror]
  | unfinished => simp [Except.bind, eq_comm]
  | malformed m => simp [Except.bind]

theorem Reads.pipeline_eq {text : String} (h : s.Reads line s' text) :
    s'.pipeline = s.pipeline := by
  rcases h with ⟨-, -, rfl, -⟩ | ⟨-, -, rfl, -⟩ <;> rfl

theorem moves_of_readCommand {text : String} (hreads : s.Reads line s' text)
    (h : (s'.readCommand pos text).result = .ok t) : s.Moves c pos line t := by
  have hsame : s'.pipeline = s.pipeline := by
    rcases hreads with ⟨-, -, rfl, -⟩ | ⟨-, -, rfl, -⟩ <;> rfl
  rcases readCommand_ok_iff.1 h with ⟨hscan, rfl⟩ | ⟨statements, b, hscan, hb, rfl⟩
  · exact .unfinished s' text hreads hscan
  · rw [hsame] at hb ⊢
    exact .command s' text statements b hreads hscan hb

theorem step_of_reads {text : String} (hreads : s.Reads line s' text) :
    (s.step c pos line).result = (s'.readCommand pos text).result := by
  unfold step
  rcases hreads with ⟨u, hmode, rfl, rfl⟩ | ⟨hmode, hline, rfl, rfl⟩
  · simp only [hmode]
  · simp only [hmode, stepIdle, hline, Logged.result_bind, result_dropPending, keepsPending]
    rfl

theorem finishBody_ok_iff {owner : Option Declaration} {b : Block} {u : Table} :
    ((s.withTable u).finishBody owner b).result = .ok t ↔
      (owner = none ∧ t = (s.withTable (u.push b)).appendDefault [.block u.size]) ∨
      ∃ d, owner = some d ∧ s.pipeline.procedures.contains d.name = false ∧
        t = s.withProcedure d.name b u := by
  unfold finishBody
  cases owner with
  | none =>
    simp only [withTable, Logged.result_pure, Except.ok.injEq, true_and, reduceCtorEq, false_and,
      exists_false, or_false]
    exact eq_comm
  | some d =>
    cases hnew : s.pipeline.procedures.contains d.name with
    | true => simp [withTable, Pipeline.addProcedure, hnew, Except.bind]
    | false =>
      simp only [withTable, Pipeline.addProcedure, hnew, Logged.result_bind, Logged.result_log,
        Except.bind, Bool.false_eq_true, if_false, Logged.result_pure, Except.ok.injEq,
        Option.some.injEq, reduceCtorEq, false_and, false_or, exists_eq_left', true_and]
      exact eq_comm

theorem finishBody_of_registered {d : Declaration} {b : Block} {u : Table}
    (h : s.pipeline.procedures.contains d.name = true) :
    ((s.withTable u).finishBody (some d) b).result =
      .error (.misuse (.procedureTwice d.name)) := by
  simp [finishBody, withTable, Pipeline.addProcedure, h, Except.bind]

theorem moves_of_stepIdle (hmode : s.mode = .idle) (h : (s.stepIdle c pos line).result = .ok t) :
    s.Moves c pos line t := by
  unfold stepIdle at h
  simp only [Logged.result_bind, result_dropPending, Except.bind] at h
  cases hline : classify line with
  | «include» target =>
    simp only [hline, keepsPending, Bool.false_eq_true, if_false] at h
    obtain ⟨vars, -, rfl⟩ := readInclude_ok_iff.1 h
    exact .included target vars hmode hline h
  | header name bracket =>
    simp only [hline, keepsPending, if_true] at h
    unfold readHeader at h
    cases hnew : s.pipeline.declarations.get? name with
    | some previous => simp [hnew] at h
    | none =>
      simp only [hnew, Logged.result_pure, Except.ok.injEq] at h
      rw [← h]
      cases bracket <;> exact .header name _ hmode hline hnew
  | left b =>
    simp only [hline, keepsPending, Bool.false_eq_true, if_false, Logged.result_pure,
      Except.ok.injEq] at h
    rw [← h]
    exact .opening b hmode hline
  | right b =>
    simp [hline] at h
  | empty =>
    simp only [hline, keepsPending, if_true, Logged.result_pure, Except.ok.injEq] at h
    rw [← h]
    exact .skip hmode (.inl hline)
  | «attribute» =>
    simp only [hline, keepsPending, if_true] at h
    unfold readAttribute at h
    cases hread : attribute? line with
    | some a =>
      simp only [hread, Logged.result_pure, Except.ok.injEq] at h
      rw [← h]
      exact .annotates a hmode hline hread
    | none =>
      simp [hread, Except.map] at h
      rw [← h]
      exact .malformed hmode hline hread
  | comment =>
    simp only [hline, keepsPending, if_true, Logged.result_pure, Except.ok.injEq] at h
    rw [← h]
    exact .skip hmode (.inr hline)
  | «variable» name value =>
    simp only [hline, keepsPending, Bool.false_eq_true, if_false, Logged.result_pure,
      Except.ok.injEq] at h
    rw [← h]
    exact .assigns name value hmode hline
  | command =>
    simp only [hline, keepsPending, Bool.false_eq_true, if_false] at h
    exact moves_of_readCommand (.inr ⟨hmode, hline, rfl, rfl⟩) h

theorem moves_of_stepHeader {d : Declaration} (hmode : s.mode = .header d)
    (h : (s.stepHeader d pos line).result = .ok t) : s.Moves c pos line t := by
  unfold stepHeader at h
  split at h
  · next hempty =>
    obtain rfl := Except.ok.inj h
    exact .await d hmode (.inl hempty)
  next hempty =>
  split at h
  · cases h
  next hattribute =>
  split at h
  · next hcomment =>
    obtain rfl := Except.ok.inj h
    exact .await d hmode (.inr ⟨by simpa using hattribute, hcomment⟩)
  next hcomment =>
  split at h
  · next b hleft =>
    obtain rfl := Except.ok.inj h
    exact .begin d b hmode (by simp [hempty, hattribute, hcomment]) hleft
  · cases h

theorem moves_of_stepBody {owner : Option Declaration} {n : Nest} (hmode : s.mode = .body owner n)
    (h : (s.stepBody owner n pos line).result = .ok t) : s.Moves c pos line t := by
  unfold stepBody at h
  rw [Logged.result_bind] at h
  cases hnest : (n.step s.pipeline.blocks pos line).result with
  | error e => simp [hnest, Except.bind] at h
  | ok a =>
    have hline := Nest.step_ok_iff.1 hnest
    cases a with
    | inside n' u =>
      simp only [hnest, Except.bind, Logged.result_pure, Except.ok.injEq] at h
      rw [← h]
      exact .inside owner n n' u hmode hline
    | closed b u =>
      simp only [hnest, Except.bind] at h
      rcases finishBody_ok_iff.1 h with ⟨rfl, rfl⟩ | ⟨d, rfl, hnew, rfl⟩
      · exact .closing n b u hmode hline
      · exact .procedure d n b u hmode hline hnew

theorem step_of_moves (h : s.Moves c pos line t) : (s.step c pos line).result = .ok t := by
  cases h with
  | skip hmode hline =>
    rcases hline with hline | hline <;>
      simp [step, hmode, stepIdle, hline, keepsPending]
  | included target vars hmode hline hread =>
    simp [step, hmode, stepIdle, hline, keepsPending, Except.bind, hread]
  | header name bracket hmode hline hnew =>
    cases bracket <;>
      simp [step, hmode, stepIdle, hline, keepsPending, Except.bind, readHeader, hnew, headerMode,
        enter]
  | opening b hmode hline =>
    simp [step, hmode, stepIdle, hline, keepsPending, Except.map]
  | annotates a hmode hline hread =>
    simp [step, hmode, stepIdle, hline, keepsPending, Except.map, readAttribute, hread]
  | malformed hmode hline hread =>
    simp [step, hmode, stepIdle, hline, keepsPending, Except.bind, Except.map, readAttribute, hread]
  | assigns name value hmode hline =>
    simp [step, hmode, stepIdle, hline, keepsPending, Except.map, drop]
  | unfinished s' text hreads hscan =>
    rw [step_of_reads hreads, readCommand_ok_iff]
    exact .inl ⟨hscan, rfl⟩
  | command s' text statements b hreads hscan hb =>
    have hsame : s'.pipeline = s.pipeline := by
      rcases hreads with ⟨-, -, rfl, -⟩ | ⟨-, -, rfl, -⟩ <;> rfl
    rw [step_of_reads hreads, readCommand_ok_iff]
    exact .inr ⟨statements, b, hscan, hsame ▸ hb, by rw [hsame]⟩
  | await d hmode hline =>
    rcases hline with hline | ⟨hattribute, hline⟩
    · simp [step, hmode, stepHeader, hline]
    · by_cases hempty : isEmptyLine line = true
      · simp [step, hmode, stepHeader, hempty]
      · simp [step, hmode, stepHeader, hempty, hattribute, hline]
  | begin d b hmode hcomment hline =>
    simp only [not_or, Bool.not_eq_true] at hcomment
    simp [step, hmode, stepHeader, hcomment, hline]
  | inside owner n n' u hmode hline =>
    simp [step, hmode, stepBody, Nest.step_ok_iff.2 hline, Except.bind]
  | closing n b u hmode hline =>
    simp [step, hmode, stepBody, Nest.step_ok_iff.2 hline, Except.bind, finishBody_ok_iff]
  | procedure d n b u hmode hline hnew =>
    simp [step, hmode, stepBody, Nest.step_ok_iff.2 hline, Except.bind, finishBody_ok_iff, hnew]

/-- **Steps of a load.** A step that succeeds is one of the moves, and every move is a step. -/
theorem step_ok_iff : (s.step c pos line).result = .ok t ↔ s.Moves c pos line t := by
  constructor
  · intro h
    unfold step at h
    split at h
    · next hmode => exact moves_of_stepIdle hmode h
    · next u hmode => exact moves_of_readCommand (.inl ⟨u, hmode, rfl, rfl⟩) h
    · next d hmode => exact moves_of_stepHeader hmode h
    · next owner n hmode => exact moves_of_stepBody hmode h
  · exact step_of_moves

/-! ### Moves in a mode -/

theorem Moves.of_reads {text : String} (h : s.Moves c pos line t) (hreads : s.Reads line s' text) :
    (Shell.tokenize text = .unfinished ∧ t = s'.enter (.command text)) ∨
      ∃ statements, ∃ b : Block, Shell.tokenize text = .complete statements ∧
        s'.pipeline.defaultBlock = .ok b ∧
        t = (s'.withTable
          ((Placement.ofCommand text statements b.parallel).addTo s'.pipeline.blocks)).appendDefault
          ((Placement.ofCommand text statements b.parallel).itemsIn s'.pipeline.blocks) := by
  have hstep := step_ok_iff.2 h
  rw [step_of_reads hreads] at hstep
  exact readCommand_ok_iff.1 hstep

theorem Moves.of_header {d : Declaration} (h : s.Moves c pos line t) (hmode : s.mode = .header d) :
    ((isEmptyLine line = true ∨ isAttributeLine line = false ∧ isCommentLine line = true) ∧
      t = s) ∨
    ∃ b, leftBracket? line = some b ∧ t = s.enter (.body (some d) (.new b)) := by
  have hstep := step_ok_iff.2 h
  unfold step at hstep
  rw [hmode] at hstep
  dsimp only at hstep
  unfold stepHeader at hstep
  split at hstep
  · next hempty => exact .inl ⟨.inl hempty, (Except.ok.inj hstep).symm⟩
  split at hstep
  · cases hstep
  next hattribute =>
  split at hstep
  · next hcomment =>
    exact .inl ⟨.inr ⟨by simpa using hattribute, hcomment⟩, (Except.ok.inj hstep).symm⟩
  split at hstep
  · next b hleft => exact .inr ⟨b, hleft, (Except.ok.inj hstep).symm⟩
  · cases hstep

theorem Moves.of_body {owner : Option Declaration} {n : Nest} (h : s.Moves c pos line t)
    (hmode : s.mode = .body owner n) :
    (∃ n' t', n.Moves line s.pipeline.blocks (.inside n' t') ∧
      t = (s.withTable t').enter (.body owner n')) ∨
    ∃ b t', n.Moves line s.pipeline.blocks (.closed b t') ∧
      ((s.withTable t').finishBody owner b).result = .ok t := by
  have hstep := step_ok_iff.2 h
  unfold step at hstep
  rw [hmode] at hstep
  dsimp only at hstep
  unfold stepBody at hstep
  rw [Logged.result_bind] at hstep
  cases hnest : (n.step s.pipeline.blocks pos line).result with
  | error e =>
    rw [hnest] at hstep
    cases hstep
  | ok a =>
    have hline := Nest.step_ok_iff.1 hnest
    rw [hnest] at hstep
    cases a with
    | inside n' u => exact .inl ⟨n', u, hline, (Except.ok.inj hstep).symm⟩
    | closed b u => exact .inr ⟨b, u, hline, hstep⟩

/-! ## Whole documents -/

theorem run_cons_ok {file : String} {n : Nat} {lines : List String} :
    (s.run c file n (line :: lines)).result = .ok t ↔
      ∃ u, s.Moves c ⟨file, n + 1⟩ line u ∧ (u.run c file (n + 1) lines).result = .ok t := by
  rw [run, Logged.result_bind]
  cases hstep : (s.step c ⟨file, n + 1⟩ line).result with
  | ok u =>
    have hu := step_ok_iff.1 hstep
    constructor
    · intro h
      exact ⟨u, hu, h⟩
    · rintro ⟨u', hu', h⟩
      have hsame := Except.ok.inj (hstep.symm.trans (step_ok_iff.2 hu'))
      exact hsame ▸ h
  | error e =>
    constructor
    · intro h
      cases h
    · rintro ⟨u', hu', -⟩
      cases hstep.symm.trans (step_ok_iff.2 hu')

theorem result_run_append {file : String} {k : Nat} {xs : List String}
    (h : (s.run c file k xs).result = .ok t) (ys : List String) :
    (s.run c file k (xs ++ ys)).result = (t.run c file (k + xs.length) ys).result := by
  rw [run_append, Logged.result_bind, h]
  rfl

/-- A run over two parts of a text passes through the state behind the first. -/
theorem exists_of_run_append {file : String} {k : Nat} {xs ys : List String}
    (h : (s.run c file k (xs ++ ys)).result = .ok t) :
    ∃ u, (s.run c file k xs).result = .ok u ∧
      (u.run c file (k + xs.length) ys).result = .ok t := by
  rw [run_append, Logged.result_bind] at h
  cases hxs : (s.run c file k xs).result with
  | ok u =>
    rw [hxs] at h
    exact ⟨u, rfl, h⟩
  | error e =>
    rw [hxs] at h
    cases h

theorem result_run_cons {file : String} {k : Nat}
    (h : s.Moves c ⟨file, k + 1⟩ line t) (lines : List String) :
    (s.run c file k (line :: lines)).result = (t.run c file (k + 1) lines).result := by
  rw [run, Logged.result_bind, step_ok_iff.2 h]
  rfl

/-- **Invariants of a run.** What every move over one of the lines preserves holds of the state
behind all of them. -/
theorem run_invariant {P : State → Prop} {file : String} {n : Nat} {lines : List String}
    (hmoves : ∀ s t pos line, line ∈ lines → s.Moves c pos line t → P s → P t)
    (h : (s.run c file n lines).result = .ok t) (hs : P s) : P t := by
  induction lines generalizing s n with
  | nil =>
    obtain rfl := Except.ok.inj h
    exact hs
  | cons line lines ih =>
    obtain ⟨u, hu, hrun⟩ := run_cons_ok.1 h
    refine ih (fun s t pos line hline => ?_) hrun (hmoves s u _ line (by simp) hu hs)
    exact hmoves s t pos line (List.mem_cons_of_mem _ hline)

theorem finish_ok_iff {last : Position} {d : Loaded} :
    (s.finish last).result = .ok d ↔
      s.mode = .idle ∧ 0 < s.pipeline.blocks.size ∧
        d = ⟨{ s.pipeline with
          blocks := s.pipeline.blocks.modify Pipeline.defaultIndex (·.append s.items.reverse) },
          s.assigned⟩ := by
  unfold finish
  cases hmode : s.mode with
  | idle =>
    by_cases hsize : 0 < s.pipeline.blocks.size
    · by_cases hpending : s.pending.isEmpty = true
      · simp [hpending, Pipeline.modifyBlock, Pipeline.defaultIndex, hsize, eq_comm]
      · simp [hpending, Pipeline.modifyBlock, Pipeline.defaultIndex, hsize, eq_comm, Except.map]
    · by_cases hpending : s.pending.isEmpty = true
      · simp [hpending, Pipeline.modifyBlock, Pipeline.defaultIndex, hsize]
      · simp [hpending, Pipeline.modifyBlock, Pipeline.defaultIndex, hsize, Except.bind]
  | command text => simp
  | header d => simp
  | body owner n => simp

end State

theorem loadText_ok_iff {c : Setting} {file text : String} {d : Loaded} :
    (loadText c file text).result = .ok d ↔
      ∃ s, ((State.start c.options).run c file 0 (Text.lines text)).result = .ok s ∧
        (s.finish ⟨file, (Text.lines text).length⟩).result = .ok d := by
  unfold loadText loadLines
  rw [Logged.result_bind]
  cases ((State.start c.options).run c file 0 (Text.lines text)).result with
  | ok s => simp [Except.bind]
  | error e => simp [Except.bind]

end Runbook.Document
