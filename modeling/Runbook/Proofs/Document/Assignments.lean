import Runbook.Document.Config
import Runbook.Proofs.ByName

/-!
# Configurations line by line

A configuration is read for as long as its lines may stand in one, and every assignment on the way
is made (`readAssignments_append`). So it is accepted exactly when all its lines may stand in one,
and otherwise the assignments before its first wrong line are made and nothing more
(`readConfig_accepts_or_stops`).
-/

namespace Runbook.Document

/-- A line of this kind may stand in a configuration: an assignment, a blank line or a comment. -/
def LineKind.configures : LineKind → Bool
  | .empty | .comment | .attribute | .variable .. => true
  | _ => false

/-- The assignments among some lines, in order. -/
def assignmentsIn (lines : List String) : List (String × String) :=
  lines.filterMap fun line =>
    match classify line with
    | .variable name value => some (name, value)
    | _ => none

theorem assignmentsIn_cons (line : String) (lines : List String) :
    assignmentsIn (line :: lines) = assignmentsIn [line] ++ assignmentsIn lines :=
  List.filterMap_append (l := [line])

section

variable {file line : String} {vars : Variables} {count : Nat} {seen read rest lines : List String}

theorem readAssignments_cons (h : (classify line).configures = true) :
    readAssignments file vars count seen (line :: rest) =
      readAssignments file (vars.insertAll (assignmentsIn [line]))
        (count + (assignmentsIn [line]).length) (line :: seen) rest := by
  conv_lhs => unfold readAssignments
  unfold assignmentsIn
  rw [List.filterMap_cons]
  cases hkind : classify line with
  | empty => rfl
  | comment => rfl
  | «attribute» => rfl
  | «variable» name value => rfl
  | _ =>
    rw [hkind] at h
    cases h

theorem readAssignments_of_refused (h : (classify line).configures = false) :
    readAssignments file vars count seen (line :: rest) =
      ⟨vars, ⟨file, line :: seen, rest⟩, throw (.invalidConfigLine ⟨file, seen.length + 1⟩)⟩ := by
  unfold readAssignments
  cases hkind : classify line with
  | empty | comment | «attribute» | «variable» =>
    rw [hkind] at h
    cases h
  | _ => rfl

/-- **Reading on.** Lines that may stand in a configuration make their assignments in turn, and the
rest is read from there. -/
theorem readAssignments_append (h : ∀ line ∈ read, (classify line).configures = true) :
    readAssignments file vars count seen (read ++ rest) =
      readAssignments file (vars.insertAll (assignmentsIn read))
        (count + (assignmentsIn read).length) (read.reverse ++ seen) rest := by
  induction read generalizing vars count seen with
  | nil => rfl
  | cons line read ih =>
    obtain ⟨hline, hread⟩ := List.forall_mem_cons.1 h
    rw [List.cons_append, readAssignments_cons hline, ih hread, assignmentsIn_cons line read,
      ByName.insertAll_append, List.length_append, Nat.add_assoc, List.reverse_cons,
      List.append_assoc]
    rfl

theorem readAssignments_of_configures (h : ∀ line ∈ lines, (classify line).configures = true) :
    readAssignments file vars count seen lines =
      ⟨vars.insertAll (assignmentsIn lines), ⟨file, lines.reverse ++ seen, []⟩,
        Logged.log .debug (toString (count + (assignmentsIn lines).length) ++
          " variable(s) read from " ++ file)⟩ := by
  rw [← List.append_nil lines, readAssignments_append h, List.append_nil]
  rfl

/-- Lines all may stand in a configuration, or there is a first one that may not. -/
theorem configures_or_exists_first (lines : List String) :
    (∀ line ∈ lines, (classify line).configures = true) ∨
      ∃ read line rest, lines = read ++ line :: rest ∧
        (∀ l ∈ read, (classify l).configures = true) ∧ (classify line).configures = false := by
  cases hfind : lines.find? fun line => !(classify line).configures with
  | none => exact .inl (by simpa using hfind)
  | some line =>
    obtain ⟨hline, read, rest, rfl, hread⟩ := List.find?_eq_some_iff_append.1 hfind
    exact .inr ⟨read, line, rest, rfl, by simpa using hread, by simpa using hline⟩

end

/-! ## Acceptance -/

/-- A reading that stopped at the first wrong line behind the cursor: the lines before it have made
their assignments, and nothing else has happened. -/
structure ConfigReading.StoppedAt (r : ConfigReading) (s : Source) (vars : Variables)
    (read : List String) (line : String) (rest : List String) : Prop where
  lines : s.rest = read ++ line :: rest
  accepted : ∀ l ∈ read, (classify l).configures = true
  refused : (classify line).configures = false
  error : r.outcome.result = .error (.invalidConfigLine r.source.pos)
  /-- The cursor is on the wrong line. -/
  source : r.source = ⟨s.file, line :: (read.reverse ++ s.seen), rest⟩
  pos : r.source.pos = ⟨s.file, s.pos.line + read.length + 1⟩
  assigned : r.assigned = vars.insertAll (assignmentsIn read)
  untouched : ∀ key, key ∉ (assignmentsIn read).map (·.1) →
    r.assigned.get? key = vars.get? key

section

variable {s : Source} {vars : Variables} {read rest : List String} {line : String} {e : LoadError}

theorem readConfig_of_configures (h : ∀ line ∈ s.rest, (classify line).configures = true) :
    (readConfig s vars).outcome.result = .ok ⟨⟩ ∧
      (readConfig s vars).assigned = vars.insertAll (assignmentsIn s.rest) := by
  unfold readConfig
  rw [readAssignments_of_configures h]
  exact ⟨rfl, rfl⟩

theorem readConfig_stoppedAt (hlines : s.rest = read ++ line :: rest)
    (hread : ∀ l ∈ read, (classify l).configures = true)
    (hline : (classify line).configures = false) :
    (readConfig s vars).StoppedAt s vars read line rest := by
  have hresult : readConfig s vars =
      ⟨vars.insertAll (assignmentsIn read), ⟨s.file, line :: (read.reverse ++ s.seen), rest⟩,
        throw (.invalidConfigLine ⟨s.file, (read.reverse ++ s.seen).length + 1⟩)⟩ := by
    unfold readConfig
    rw [hlines, readAssignments_append hread, readAssignments_of_refused hline]
  rw [hresult]
  refine ⟨hlines, hread, hline, rfl, rfl, ?_, rfl, fun key hkey => ?_⟩
  · simp [Source.pos, Nat.add_comm]
  · exact ByName.get?_insertAll_of_not_mem vars hkey

theorem assigned_of_readConfig (h : (readConfig s vars).outcome.result = .ok ⟨⟩) :
    (readConfig s vars).assigned = vars.insertAll (assignmentsIn s.rest) := by
  rcases configures_or_exists_first s.rest with hall | ⟨read, line, rest, hlines, hread, hline⟩
  · exact (readConfig_of_configures hall).2
  · cases h.symm.trans (readConfig_stoppedAt hlines hread hline).error

/-- A configuration that is not read to its end stops at a wrong line. -/
theorem exists_stoppedAt_of_readConfig (h : (readConfig s vars).outcome.result = .error e) :
    ∃ read line rest, (readConfig s vars).StoppedAt s vars read line rest := by
  rcases configures_or_exists_first s.rest with hall | ⟨read, line, rest, hlines, hread, hline⟩
  · cases h.symm.trans (readConfig_of_configures hall).1
  · exact ⟨read, line, rest, readConfig_stoppedAt hlines hread hline⟩

theorem readConfig_error (h : (readConfig s vars).outcome.result = .error e) :
    ∃ n, e = .invalidConfigLine ⟨s.file, n⟩ := by
  obtain ⟨read, line, rest, hstopped⟩ := exists_stoppedAt_of_readConfig h
  have herror := Except.error.inj (h.symm.trans hstopped.error)
  rw [hstopped.pos] at herror
  exact ⟨_, herror⟩

end

/-- **Configurations.** A configuration is accepted exactly when all its lines are assignments,
blank lines or comments, and makes all its assignments then. Otherwise it fails at the first other
line, where the cursor stays, and the assignments before it are made and no others. -/
theorem readConfig_accepts_or_stops (s : Source) (vars : Variables) :
    ((readConfig s vars).outcome.result = .ok ⟨⟩ ↔
        ∀ line ∈ s.rest, (classify line).configures = true) ∧
      ((readConfig s vars).outcome.result = .ok ⟨⟩ →
        (readConfig s vars).assigned = vars.insertAll (assignmentsIn s.rest)) ∧
      ∀ e, (readConfig s vars).outcome.result = .error e →
        ∃ read line rest, (readConfig s vars).StoppedAt s vars read line rest := by
  refine ⟨⟨fun hok => ?_, fun hall => (readConfig_of_configures hall).1⟩,
    fun hok => assigned_of_readConfig hok, fun e he => exists_stoppedAt_of_readConfig he⟩
  rcases configures_or_exists_first s.rest with hall | ⟨read, line, rest, hlines, hread, hline⟩
  · exact hall
  · cases hok.symm.trans (readConfig_stoppedAt hlines hread hline).error

/-- A configuration in which a line that looks like an assignment includes a file, and variables of
which it assigns one. -/
def stolenSource : Source :=
  .ofText "doc.conf" "# shared\nA = 1\n\n#@ B = 2\nC = 3\nA = 4\ninclude = x\nE = 5\n"

/-- Variables that stood before. -/
def stolenVariables : Variables :=
  .ofList [("A", "0"), ("D", "9")]

theorem readConfig_accepts_or_stops_stolenSource :
    (readConfig stolenSource stolenVariables).outcome.result =
        .error (.invalidConfigLine ⟨"doc.conf", 7⟩) ∧
      (readConfig stolenSource stolenVariables).assigned =
        .ofList [("A", "4"), ("C", "3"), ("D", "9")] ∧
      ∃ read line rest,
        (readConfig stolenSource stolenVariables).StoppedAt stolenSource stolenVariables read line
          rest := by
  have herror : (readConfig stolenSource stolenVariables).outcome.result =
      .error (.invalidConfigLine ⟨"doc.conf", 7⟩) := by
    decide +kernel
  exact ⟨herror, by decide +kernel,
    (readConfig_accepts_or_stops stolenSource stolenVariables).2.2 _ herror⟩

end Runbook.Document
