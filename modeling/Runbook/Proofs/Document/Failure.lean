import Runbook.Proofs.Document.Concatenation

/-!
# Errors before the end of a text

A load that fails at a line has read no further than this line, so it fails in the same way whatever
stands behind it (`State.exists_of_run_error`, `State.run_of_isPrefix`). Only the errors about the
end of a text, where a command, a block or a header is left open, may be mended by more lines
(`State.isAtEnd_of_finish`).
-/

namespace Runbook

theorem Logged.bind_of_error {ε : Type u} {α β : Type v} {x : Logged ε α} {e : ε}
    (h : x.result = .error e) (f : α → Logged ε β) : x >>= f = ⟨x.records, .error e⟩ := by
  show Logged.bind x f = _
  unfold Logged.bind
  rw [h]

namespace Document

/-- An error about the end of the text: what is open there is not finished. -/
def LoadError.IsAtEnd : LoadError → Prop
  | .unexpectedEnd _ => True
  | .missingRightBracket _ _ => True
  | .missingLeftBracket _ => True
  | _ => False

namespace State

variable {c : Setting} {file : String} {s : State} {e : LoadError} {lines : List String} {k : Nat}

theorem exists_of_run_error (h : (s.run c file k lines).result = .error e) :
    ∃ read line rest t, lines = read ++ line :: rest ∧ (s.run c file k read).result = .ok t ∧
      (t.step c ⟨file, k + read.length + 1⟩ line).result = .error e := by
  induction lines generalizing s k with
  | nil => cases h
  | cons line lines ih =>
    rw [run, Logged.result_bind] at h
    cases hstep : (s.step c ⟨file, k + 1⟩ line).result with
    | error e' =>
      rw [hstep] at h
      obtain rfl := Except.error.inj h
      exact ⟨[], line, lines, s, rfl, rfl, hstep⟩
    | ok u =>
      rw [hstep] at h
      obtain ⟨read, line', rest, t, rfl, hread, hfails⟩ := ih h
      refine ⟨line :: read, line', rest, t, rfl, ?_, ?_⟩
      · rw [result_run_cons (step_ok_iff.1 hstep), hread]
      · rw [List.length_cons, Nat.add_comm read.length, ← Nat.add_assoc]
        exact hfails

theorem run_of_isPrefix {read : List String} (h : (s.run c file k read).result = .error e)
    (hlines : read <+: lines) : s.run c file k lines = ⟨(s.run c file k read).records, .error e⟩ := by
  obtain ⟨rest, rfl⟩ := hlines
  rw [run_append, Logged.bind_of_error h]

/-- The end of a text brings no other errors, as long as there is a default block. -/
theorem isAtEnd_of_finish {last : Position} (hsize : 0 < s.pipeline.blocks.size)
    (h : (s.finish last).result = .error e) : e.IsAtEnd := by
  cases hmode : s.mode with
  | idle =>
    have hok : (s.finish last).result = .ok _ := finish_ok_iff.2 ⟨hmode, hsize, rfl⟩
    cases h.symm.trans hok
  | command text =>
    unfold finish at h
    rw [hmode] at h
    obtain rfl := Except.error.inj h
    trivial
  | header d =>
    unfold finish at h
    rw [hmode] at h
    obtain rfl := Except.error.inj h
    trivial
  | body owner n =>
    unfold finish at h
    rw [hmode] at h
    obtain rfl := Except.error.inj h
    unfold Nest.endError
    cases n.command <;> trivial

end State

variable {c : Setting} {file text first : String} {e : LoadError}

theorem run_error_of_loadText (h : (loadText c file text).result = .error e) (he : ¬e.IsAtEnd) :
    ((State.start c.options).run c file 0 (Text.lines text)).result = .error e := by
  unfold loadText loadLines at h
  rw [Logged.result_bind] at h
  cases hrun : ((State.start c.options).run c file 0 (Text.lines text)).result with
  | error e' =>
    rw [hrun] at h
    obtain rfl := Except.error.inj h
    rfl
  | ok s =>
    rw [hrun] at h
    have hbegun := State.begun_of_run hrun (State.begun_start c.options)
    exact absurd (State.isAtEnd_of_finish hbegun.nonempty h) he

/-- Every text that begins with lines at which a run fails fails there. -/
theorem loadText_of_isPrefix {read : List String}
    (h : ((State.start c.options).run c file 0 read).result = .error e)
    (htext : read <+: Text.lines text) :
    loadText c file text = ⟨((State.start c.options).run c file 0 read).records, .error e⟩ := by
  have hrun := State.run_of_isPrefix h htext
  unfold loadText loadLines
  rw [Logged.bind_of_error (congrArg Logged.result hrun), hrun]

/-- **Errors before the end.** An error that is not about the end of a text hangs on the lines up to
one of them alone, which the load has read without an error up to this one: every text that begins
with these lines fails with the same error and the same records. So does the text with any other
text put behind its last line. -/
theorem loadText_of_error (hfirst : Text.EndsLine first)
    (h : (loadText c file first).result = .error e) (he : ¬e.IsAtEnd) :
    (∃ read line t, read ++ [line] <+: Text.lines first ∧
      ((State.start c.options).run c file 0 read).result = .ok t ∧
      ∀ text, read ++ [line] <+: Text.lines text →
        loadText c file text = ⟨(loadText c file first).records, .error e⟩) ∧
    ∀ second, loadText c file (first ++ second) = ⟨(loadText c file first).records, .error e⟩ := by
  obtain ⟨read, line, rest, t, hlines, hread, hfails⟩ :=
    State.exists_of_run_error (run_error_of_loadText h he)
  have hprefix : read ++ [line] <+: Text.lines first := ⟨rest, by simp [hlines]⟩
  have hrun : ((State.start c.options).run c file 0 (read ++ [line])).result = .error e := by
    rw [State.result_run_append hread, State.run, Logged.result_bind, hfails]
    rfl
  have hsame : ∀ text, read ++ [line] <+: Text.lines text →
      loadText c file text = ⟨(loadText c file first).records, .error e⟩ := by
    intro text htext
    rw [loadText_of_isPrefix hrun htext, loadText_of_isPrefix hrun hprefix]
  refine ⟨⟨read, line, t, hprefix, hread, hsame⟩, fun second => hsame _ ?_⟩
  rw [Text.lines_append hfirst]
  exact hprefix.trans (List.prefix_append _ _)

/-- A document with an include, and behind it a block that it leaves open. -/
def brokenDocument : String :=
  Text.unlines ["build() \x7b", "\tmake", "\x7d", "include vars.conf", "\x7b"]

/-- The document beside a file that has a command behind its assignment. -/
def Setting.besideCommand : Setting :=
  ⟨{}, ⟨(· = "./vars.conf"), fun _ => .ok (Text.unlines ["x = 1", "make"])⟩⟩

/-- The line of the included file is wrong, whether the block is closed or not. -/
theorem loadText_of_error_brokenDocument :
    Text.EndsLine brokenDocument ∧
      (loadText .besideCommand "doc.pipe" brokenDocument).result =
        .error (.invalidConfigLine ⟨"./vars.conf", 2⟩) ∧
      ¬(LoadError.invalidConfigLine ⟨"./vars.conf", 2⟩).IsAtEnd ∧
      loadText .besideCommand "doc.pipe" (brokenDocument ++ "\tbuild\n\x7d\n") =
        ⟨(loadText .besideCommand "doc.pipe" brokenDocument).records,
          .error (.invalidConfigLine ⟨"./vars.conf", 2⟩)⟩ := by
  have hends : Text.EndsLine brokenDocument := by decide +kernel
  have herror : (loadText .besideCommand "doc.pipe" brokenDocument).result =
      .error (.invalidConfigLine ⟨"./vars.conf", 2⟩) := by
    decide +kernel
  have hearly : ¬(LoadError.invalidConfigLine ⟨"./vars.conf", 2⟩).IsAtEnd := id
  exact ⟨hends, herror, hearly, (loadText_of_error hends herror hearly).2 _⟩

end Document

end Runbook
