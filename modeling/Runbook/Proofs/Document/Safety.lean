import Runbook.Proofs.Document.Forest
import Runbook.Proofs.Document.Offsets
import Runbook.Proofs.Document.Rejection
import Runbook.Proofs.Pipeline.Offsets
import Runbook.Proofs.Shell.Offsets

/-!
# Safety on every text

Lines, commands and options may all be cut by byte offsets: no cut fails, and the outcome is the one
that the characters give. A load breaks no rule of the pipeline on its way, and what it gives stays
usable when its calls are promoted, also when that ends at an option given twice
(`loadText_safe`).
-/

namespace Runbook.Document

theorem tokenize_of_loadText_error {c : Setting} {file text line : String} {pos : Position}
    {m : Shell.Malformed}
    (h : (loadText c file text).result = .error (.malformedCommand pos line m)) :
    Shell.tokenize line = .malformed m := by
  rcases fails_of_loadText h with ⟨read, last, rest, s, -, -, hfails⟩ | ⟨s, hrun, hfinish⟩
  · cases hfails with
    | included target _ _ _ hread =>
      obtain ⟨path, hinclude | ⟨cause, hinclude⟩ | ⟨n, hinclude⟩⟩ := State.readInclude_error hread
      all_goals cases hinclude
    | malformed s' _ _ _ hscan => exact hscan
    | inside owner n _ _ hline =>
      cases hline with
      | malformed _ _ _ hscan => exact hscan
  · have hbegun := State.begun_of_run hrun (State.begun_start c.options)
    exact (State.isAtEnd_of_finish hbegun.nonempty hfinish).elim

/-- A load of a text, and all that is done with lines, commands and pipelines on the way and
behind it, without a cut or an index that fails. -/
structure Safe (c : Setting) (file text : String) : Prop where
  /-- Every cut in a line succeeds. -/
  lines : ∀ line, classifyByOffset line = .ok (classify line)
  /-- Every cut in a command succeeds. -/
  commands : ∀ command, Shell.tokenizeByOffset command = .ok (Shell.tokenize command)
  /-- Every cut for the marker of a malformed command succeeds. -/
  markers : ∀ pos command m, (loadText c file text).result =
    .error (.malformedCommand pos command m) → m.markerByOffset command = .ok (m.marker command)
  /-- Every cut in an option succeeds, and every argument that is added is new. -/
  options : ∀ (x : Item) known, x.promoteByOffset known = .ok (x.promote known)
  /-- No procedure is registered twice, and no block is asked for that does not exist. -/
  rules : ∀ m, (loadText c file text).result ≠ .error (.misuse m)
  /-- What is loaded can be dumped, written and shown as trees, before a check and behind it. -/
  usable : ∀ d, (loadText c file text).result = .ok d →
    d.pipeline.Usable ∧ d.pipeline.check.1.Usable

/-- **Safety.** Every text is loaded, checked, written and shown without a cut or an index that
fails. -/
theorem loadText_safe (c : Setting) (file text : String) : Safe c file text where
  lines := classifyByOffset_eq
  commands := Shell.tokenizeByOffset_eq
  markers pos command m h := by
    obtain ⟨before, d, behind, hcommand, hoffset, -⟩ :=
      Shell.exists_of_malformed (tokenize_of_loadText_error h)
    exact Shell.Malformed.markerByOffset_eq hcommand hoffset
  options := Item.promoteByOffset_eq
  rules := loadText_ne_misuse c file text
  usable d h := by
    have howned := owned_of_loadText h
    exact ⟨(Pipeline.isForest_of_owned howned).usable,
      (Pipeline.isForest_of_owned howned.check).usable⟩

/-- A document with characters of several bytes, and a call that gives an option twice. -/
def wideDocument : String :=
  Text.unlines ["include 'ß.conf'", "größe = 1", "deploy() \x7b\x7b", "\techo \"ü;\"; echo ß",
    "\x7d\x7d", "deploy ä=1", "deploy a=ß a='ä'"]

/-- A command of two lines with a fault in the second one. -/
def faultyCommand : String :=
  "echo \"ß\nü\" ß; ; ä"

theorem loadText_safe_wideDocument :
    (∃ d, (loadText .alone "doc.pipe" wideDocument).result = .ok d ∧
      d.pipeline.check.2.result = .error ⟨"deploy", "a", "deploy a=ß a='ä'"⟩ ∧
      d.pipeline.Usable ∧ d.pipeline.check.1.Usable) ∧
    ∃ m : Shell.Malformed, (loadText .alone "doc.pipe" faultyCommand).result =
        .error (.malformedCommand ⟨"doc.pipe", 2⟩ faultyCommand m) ∧
      m.markerByOffset faultyCommand = .ok "      ^ unexpected ';' without a command" := by
  constructor
  · have hcheck : (loadText .alone "doc.pipe" wideDocument).result.map
        (·.pipeline.check.2.result) = .ok (.error ⟨"deploy", "a", "deploy a=ß a='ä'"⟩) := by
      decide +kernel
    cases h : (loadText .alone "doc.pipe" wideDocument).result with
    | ok d =>
      rw [h] at hcheck
      have hsafe := loadText_safe .alone "doc.pipe" wideDocument
      exact ⟨d, rfl, Except.ok.inj hcheck, hsafe.usable d h⟩
    | error e =>
      rw [h] at hcheck
      cases hcheck
  · have hfault : (loadText .alone "doc.pipe" faultyCommand).result =
        .error (.malformedCommand ⟨"doc.pipe", 2⟩ faultyCommand ⟨17, .emptyStatement⟩) := by
      decide +kernel
    refine ⟨_, hfault, ?_⟩
    rw [(loadText_safe .alone "doc.pipe" faultyCommand).markers _ _ _ hfault]
    decide +kernel

end Runbook.Document
