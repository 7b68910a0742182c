import Runbook.Proofs.Document.Assignments
import Runbook.Proofs.Document.Failure

/-!
# What makes a line fail

`Nest.Fails` and `State.Fails` list the errors that a line can bring, as the moves list what it can
do: each case says what the line must be for it (`Nest.fails_of_step`, `State.fails_of_step`). A
load that has declared what it registers never breaks a rule of the pipeline
(`loadText_ne_misuse`), for the procedure that is being read is not registered yet
(`State.Awaits`).
-/

namespace Runbook.Document

/-! ## Lines inside brackets -/

namespace Nest

/-- How a line inside brackets can fail. -/
inductive Fails (n : Nest) (pos : Position) (line : String) : LoadError → Prop
  /-- A command that no further line can complete. -/
  | malformed (text : String) (m : Shell.Malformed) (hreads : n.Reads line text)
    (hscan : Shell.tokenize text = .malformed m) : Fails n pos line (.malformedCommand pos text m)
  /-- A closing bracket of the other kind. -/
  | mismatched (found : Bracket) (hcommand : n.command = none)
    (hline : rightBracket? line = some found) (hne : found ≠ n.inner.bracket) :
    Fails n pos line (.mismatchedBracket pos found n.inner.bracket)

variable {n : Nest} {t : Table} {pos : Position} {line text : String} {e : LoadError}

theorem fails_of_readCommand (hreads : n.Reads line text)
    (h : (n.readCommand t pos text).result = .error e) : n.Fails pos line e := by
  unfold readCommand commandAt at h
  rw [Logged.result_bind] at h
  cases hscan : Shell.tokenize text with
  | complete statements =>
    rw [hscan] at h
    cases h
  | unfinished =>
    rw [hscan] at h
    cases h
  | malformed m =>
    rw [hscan] at h
    obtain rfl := Except.error.inj h
    exact .malformed text m hreads hscan

theorem fails_of_step (h : (n.step t pos line).result = .error e) : n.Fails pos line e := by
  unfold step at h
  split at h
  · next u hcommand => exact fails_of_readCommand (.inl ⟨u, hcommand, rfl⟩) h
  next hcommand =>
  split at h
  · next found hright =>
    split at h
    · cases h
    · next hne =>
      obtain rfl := Except.error.inj h
      exact .mismatched found hcommand hright hne
  next hright =>
  split at h
  · cases h
  next hleft =>
  split at h
  · cases h
  · next hline => exact fails_of_readCommand (.inr ⟨hcommand, ⟨hright, hleft, hline⟩, rfl⟩) h

end Nest

/-! ## Included files -/

theorem all_readConfigFile_error {path : String} {content : Except Files.FileError String}
    {vars : Variables} {e : LoadError}
    (h : (readConfigFile path content vars).all.result = .error e) :
    (∃ cause, e = .unreadable path cause) ∨ ∃ n, e = .invalidConfigLine ⟨path, n⟩ := by
  cases content with
  | error cause =>
    obtain rfl := Except.error.inj h
    exact .inl ⟨cause, rfl⟩
  | ok text =>
    unfold readConfigFile ConfigReading.all at h
    dsimp only at h
    rw [Logged.result_bind] at h
    cases hresult : (readConfig (.ofText path text) vars).outcome.result with
    | ok _ =>
      rw [hresult] at h
      cases h
    | error e' =>
      rw [hresult] at h
      obtain rfl := Except.error.inj h
      exact .inr (readConfig_error hresult)

/-! ## Lines of a document -/

namespace State

/-- How a line of a document can fail. -/
inductive Fails (c : Setting) (pos : Position) (line : String) (s : State) : LoadError → Prop
  /-- An include whose file is missing or wrong. -/
  | included (target : String) (e : LoadError) (hmode : s.mode = .idle)
    (hline : classify line = .include target)
    (hread : (s.drop.readInclude c pos target).result = .error e) : Fails c pos line s e
  /-- A header with a name that is declared. -/
  | header (name : String) (bracket : Option Bracket) (previous : Position) (hmode : s.mode = .idle)
    (hline : classify line = .header name bracket)
    (hold : s.pipeline.declarations.get? name = some previous) :
    Fails c pos line s (.duplicateProcedure name pos previous)
  /-- A closing bracket between entries. -/
  | unmatched (found : Bracket) (hmode : s.mode = .idle) (hline : classify line = .right found) :
    Fails c pos line s (.unmatchedRightBracket pos found)
  /-- A command that no further line can complete. -/
  | malformed (s' : State) (text : String) (m : Shell.Malformed) (hreads : s.Reads line s' text)
    (hscan : Shell.tokenize text = .malformed m) :
    Fails c pos line s (.malformedCommand pos text m)
  /-- A command where there is no default block. -/
  | command (s' : State) (text : String) (m : Misuse) (hreads : s.Reads line s' text)
    (hdefault : s.pipeline.defaultBlock = .error m) : Fails c pos line s (.misuse m)
  /-- An attribute behind a header. -/
  | annotates (d : Declaration) (hmode : s.mode = .header d)
    (hline : isAttributeLine line = true) : Fails c pos line s (.unexpectedAttribute pos)
  /-- No bracket behind a header. -/
  | await (d : Declaration) (hmode : s.mode = .header d) (hline : leftBracket? line = none) :
    Fails c pos line s (.expectedLeftBracket pos)
  /-- A line inside a block. -/
  | inside (owner : Option Declaration) (n : Nest) (e : LoadError) (hmode : s.mode = .body owner n)
    (hline : n.Fails pos line e) : Fails c pos line s e
  /-- The end of a procedure that is registered. -/
  | procedure (d : Declaration) (n : Nest) (b : Block) (t : Table)
    (hmode : s.mode = .body (some d) n) (hline : n.Moves line s.pipeline.blocks (.closed b t))
    (hold : s.pipeline.procedures.contains d.name = true) :
    Fails c pos line s (.misuse (.procedureTwice d.name))

variable {c : Setting} {pos : Position} {line text : String} {s s' t : State} {e : LoadError}

/-- What an include can fail with: its file is missing, or cannot be read, or a line of it is no
assignment. -/
theorem readInclude_error {target : String}
    (h : (s.readInclude c pos target).result = .error e) :
    ∃ path, e = .includeNotFound path pos ∨ (∃ cause, e = .unreadable path cause) ∨
      ∃ n, e = .invalidConfigLine ⟨path, n⟩ := by
  unfold readInclude at h
  generalize Files.Path.join (c.files.naming.directory pos.file) target = path at h
  refine ⟨path, ?_⟩
  by_cases hpresent : c.files.isPresent path = true
  · cases hread : (readConfigFile path (c.files.read path) s.assigned).all.result with
    | ok vars => simp [hpresent, hread, Except.map, Except.bind] at h
    | error e' =>
      obtain rfl : e' = e := by simpa [hpresent, hread, Except.map, Except.bind] using h
      exact .inr (all_readConfigFile_error hread)
  · by_cases hstrict : c.options.strictIncludes = true
    · obtain rfl : LoadError.includeNotFound path pos = e := by simpa [hpresent, hstrict] using h
      exact .inl rfl
    · simp [hpresent, hstrict, Except.map] at h

theorem fails_of_readCommand (hreads : s.Reads line s' text)
    (h : (s'.readCommand pos text).result = .error e) : s.Fails c pos line e := by
  unfold readCommand commandAt at h
  rw [Logged.result_bind, hreads.pipeline_eq] at h
  cases hscan : Shell.tokenize text with
  | complete statements =>
    rw [hscan] at h
    cases hdefault : s.pipeline.defaultBlock with
    | ok b =>
      rw [hdefault] at h
      cases h
    | error m =>
      rw [hdefault] at h
      obtain rfl := Except.error.inj h
      exact .command s' text m hreads hdefault
  | unfinished =>
    rw [hscan] at h
    cases h
  | malformed m =>
    rw [hscan] at h
    obtain rfl := Except.error.inj h
    exact .malformed s' text m hreads hscan

theorem fails_of_stepIdle (hmode : s.mode = .idle) (h : (s.stepIdle c pos line).result = .error e) :
    s.Fails c pos line e := by
  unfold stepIdle at h
  simp only [Logged.result_bind, result_dropPending, Except.bind] at h
  cases hline : classify line with
  | «include» target =>
    simp only [hline, keepsPending, Bool.false_eq_true, if_false] at h
    exact .included target e hmode hline h
  | header name bracket =>
    simp only [hline, keepsPending, if_true] at h
    unfold readHeader at h
    cases hold : s.pipeline.declarations.get? name with
    | some previous =>
      rw [hold] at h
      obtain rfl := Except.error.inj h
      exact .header name bracket previous hmode hline hold
    | none =>
      rw [hold] at h
      cases h
  | right found =>
    simp only [hline] at h
    obtain rfl := Except.error.inj h
    exact .unmatched found hmode hline
  | command =>
    simp only [hline, keepsPending, Bool.false_eq_true, if_false] at h
    exact fails_of_readCommand (.inr ⟨hmode, hline, rfl, rfl⟩) h
  | «attribute» =>
    simp only [hline] at h
    unfold readAttribute at h
    cases hread : attribute? line <;> simp [hread, Except.map] at h
  -- A line of another kind is always read.
  | left b => simp [hline] at h
  | empty => simp [hline] at h
  | comment => simp [hline] at h
  | «variable» name value => simp [hline] at h

theorem fails_of_stepHeader {d : Declaration} (hmode : s.mode = .header d)
    (h : (s.stepHeader d pos line).result = .error e) : s.Fails c pos line e := by
  unfold stepHeader at h
  split at h
  · cases h
  split at h
  · next hattribute =>
    obtain rfl := Except.error.inj h
    exact .annotates d hmode hattribute
  split at h
  · cases h
  split at h
  · cases h
  · next hleft =>
    obtain rfl := Except.error.inj h
    exact .await d hmode hleft

theorem fails_of_stepBody {owner : Option Declaration} {n : Nest} (hmode : s.mode = .body owner n)
    (h : (s.stepBody owner n pos line).result = .error e) : s.Fails c pos line e := by
  unfold stepBody at h
  rw [Logged.result_bind] at h
  cases hnest : (n.step s.pipeline.blocks pos line).result with
  | error e' =>
    rw [hnest] at h
    obtain rfl := Except.error.inj h
    exact .inside owner n e' hmode (Nest.fails_of_step hnest)
  | ok a =>
    rw [hnest] at h
    have hline := Nest.step_ok_iff.1 hnest
    cases a with
    | inside n' u => cases h
    | closed b u =>
      cases owner with
      | none => cases h
      | some d =>
        cases hold : s.pipeline.procedures.contains d.name with
        | false => cases h.symm.trans (finishBody_ok_iff.2 (.inr ⟨d, rfl, hold, rfl⟩))
        | true =>
          obtain rfl := Except.error.inj ((finishBody_of_registered hold).symm.trans h)
          exact .procedure d n b u hmode hline hold

/-- **Failing steps.** A step that fails does so in one of these ways. -/
theorem fails_of_step (h : (s.step c pos line).result = .error e) : s.Fails c pos line e := by
  unfold step at h
  split at h
  · next hmode => exact fails_of_stepIdle hmode h
  · next u hmode => exact fails_of_readCommand (.inl ⟨u, hmode, rfl, rfl⟩) h
  · next d hmode => exact fails_of_stepHeader hmode h
  · next owner n hmode => exact fails_of_stepBody hmode h

/-! ## Rules of the pipeline -/

/-- The procedure that is being read is not registered yet. -/
def Awaits (s : State) : Prop :=
  ∀ d, s.mode.owner? = some d → s.pipeline.procedures.contains d.name = false

theorem awaits_of_owner?_eq_none (h : s.mode.owner? = none) : s.Awaits := by
  intro d hd
  cases h.symm.trans hd

/-- A move that begins to read a procedure reads a new one, and it registers none but the one that
was read. -/
theorem Moves.awaits (h : s.Moves c pos line t) {parallel : Bool} (hbegun : s.Begun parallel)
    (hs : s.Awaits) : t.Awaits := by
  cases h with
  | header name bracket hmode _ hnew =>
    intro d hd
    have hname : name = d.name := by
      cases bracket <;>
      · obtain rfl := Option.some.inj hd
        rfl
    rw [← hname]
    exact hbegun.contains_eq_false hmode hnew
  | begin d b hmode =>
    intro d' hd
    exact hs d' (by rw [hmode]; exact hd)
  | inside owner n n' u hmode =>
    intro d hd
    exact hs d (by rw [hmode]; exact hd)
  | skip => exact hs
  | included => exact hs
  | annotates => exact hs
  | malformed => exact hs
  | assigns => exact hs
  | await => exact hs
  | opening => exact awaits_of_owner?_eq_none rfl
  | unfinished => exact awaits_of_owner?_eq_none rfl
  | command => exact awaits_of_owner?_eq_none rfl
  | closing => exact awaits_of_owner?_eq_none rfl
  | procedure => exact awaits_of_owner?_eq_none rfl

theorem Fails.ne_misuse (h : s.Fails c pos line e) {parallel : Bool} (hbegun : s.Begun parallel)
    (hs : s.Awaits) (m : Misuse) : e ≠ .misuse m := by
  cases h with
  | included target _ _ _ hread =>
    obtain ⟨path, rfl | ⟨cause, rfl⟩ | ⟨n, rfl⟩⟩ := readInclude_error hread <;> simp
  | command s' text m' _ hdefault =>
    cases hdefault.symm.trans (Pipeline.defaultBlock_of_getElem? hbegun.default)
  | procedure d n b t hmode _ hold =>
    have hnew := hs d (by rw [hmode]; rfl)
    cases hold.symm.trans hnew
  | inside owner n _ _ hline => cases hline <;> simp
  | header => simp
  | unmatched => simp
  | malformed => simp
  | annotates => simp
  | await => simp

theorem awaits_of_run {parallel : Bool} {file : String} {k : Nat} {lines : List String}
    (h : (s.run c file k lines).result = .ok t) (hbegun : s.Begun parallel) (hs : s.Awaits) :
    t.Awaits := by
  have hboth := run_invariant (P := fun s => s.Begun parallel ∧ s.Awaits)
    (fun _ _ _ _ _ hmove hs => ⟨hmove.begun hs.1, hmove.awaits hs.1 hs.2⟩) h ⟨hbegun, hs⟩
  exact hboth.2

end State

/-- A load fails at one of its lines, or at the end of its text. -/
theorem fails_of_loadText {c : Setting} {file text : String} {e : LoadError}
    (h : (loadText c file text).result = .error e) :
    (∃ read line rest s, Text.lines text = read ++ line :: rest ∧
      ((State.start c.options).run c file 0 read).result = .ok s ∧
      s.Fails c ⟨file, read.length + 1⟩ line e) ∨
    ∃ s, ((State.start c.options).run c file 0 (Text.lines text)).result = .ok s ∧
      (s.finish ⟨file, (Text.lines text).length⟩).result = .error e := by
  unfold loadText loadLines at h
  rw [Logged.result_bind] at h
  cases hrun : ((State.start c.options).run c file 0 (Text.lines text)).result with
  | error e' =>
    rw [hrun] at h
    obtain rfl := Except.error.inj h
    obtain ⟨read, line, rest, s, hlines, hread, hstep⟩ := State.exists_of_run_error hrun
    rw [Nat.zero_add] at hstep
    exact .inl ⟨read, line, rest, s, hlines, hread, State.fails_of_step hstep⟩
  | ok s =>
    rw [hrun] at h
    exact .inr ⟨s, rfl, h⟩

/-- **Rules of the pipeline.** The loader keeps them on every text: it registers no procedure twice
and names no block that does not exist. -/
theorem loadText_ne_misuse (c : Setting) (file text : String) (m : Misuse) :
    (loadText c file text).result ≠ .error (.misuse m) := by
  intro h
  have hbegun := State.begun_start c.options
  rcases fails_of_loadText h with ⟨read, line, rest, s, -, hread, hfails⟩ | ⟨s, hrun, hfinish⟩
  · have hawaits := State.awaits_of_run hread hbegun (State.awaits_of_owner?_eq_none rfl)
    exact hfails.ne_misuse (State.begun_of_run hread hbegun) hawaits m rfl
  · exact State.isAtEnd_of_finish (State.begun_of_run hrun hbegun).nonempty hfinish

end Runbook.Document
