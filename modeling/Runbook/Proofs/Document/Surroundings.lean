import Runbook.Proofs.Document.Assignments
import Runbook.Proofs.Document.Parts

/-!
# Files around a document

A document may include other files, and a configuration file may stand beside it. What these say
goes into the variables alone: the assignments of all files, in the order in which they are read,
make up the variables of the document (`assigned_of_loadFile`), and the pipeline is the same
whatever they say (`pipeline_eq_of_loadFile`).
-/

namespace Runbook.Document

/-! ## Assignments -/

/-- The assignments in a file, none when it is missing. -/
def Surroundings.assignments (files : Surroundings) (path : String) : List (String × String) :=
  if files.isPresent path then
    match files.read path with
    | .ok text => assignmentsIn (Text.lines text)
    | .error _ => []
  else []

/-- The assignments that a part of a document makes, those of an included file in its place. -/
def Part.assignments (files : Surroundings) (document : String) : Part → List (String × String)
  | .assignment name value => [(name, value)]
  | .inclusion target =>
    files.assignments (Files.Path.join (files.naming.directory document) target)
  | .blank | .attributeLine _ | .element _ | .procedure .. => []

/-- The assignments in the file beside a document, none when it is not to be read. -/
def Setting.siblingAssignments (c : Setting) (document : String) : List (String × String) :=
  if c.options.siblingConfig then c.files.assignments (c.options.siblingPath document) else []

/-! ## Reading in order -/

theorem all_readConfigFile {path : String} {content : Except Files.FileError String}
    {vars vars' : Variables} (h : (readConfigFile path content vars).all.result = .ok vars') :
    ∃ text, content = .ok text ∧ vars' = vars.insertAll (assignmentsIn (Text.lines text)) := by
  cases content with
  | error e => cases h
  | ok text =>
    refine ⟨text, rfl, ?_⟩
    unfold ConfigReading.all at h
    rw [Logged.result_bind] at h
    cases hread : (readConfigFile path (.ok text) vars).outcome.result with
    | error e =>
      rw [hread] at h
      cases h
    | ok _ =>
      rw [hread] at h
      rw [← Except.ok.inj h]
      exact assigned_of_readConfig hread

namespace State

variable {c c' : Setting} {file : String} {pos : Position} {s t t' u u' : State} {x : Part}
  {es : List Entry}

theorem assigned_readInclude {target : String}
    (h : (s.readInclude c pos target).result = .ok t) :
    t.assigned = s.assigned.insertAll
      (c.files.assignments (Files.Path.join (c.files.naming.directory pos.file) target)) := by
  obtain ⟨vars, hreads, rfl⟩ := readInclude_ok_iff.1 h
  unfold Includes at hreads
  unfold Surroundings.assignments
  dsimp only at hreads ⊢
  split
  · next hpresent =>
    rw [if_pos hpresent] at hreads
    obtain ⟨text, hcontent, rfl⟩ := all_readConfigFile hreads
    rw [hcontent]
  · next hpresent =>
    rw [if_neg hpresent] at hreads
    exact hreads.2

theorem Adds.assigned_eq (h : s.Adds c pos x t) :
    t.assigned = s.assigned.insertAll (x.assignments c.files pos.file) := by
  cases h with
  | inclusion target vars hread => exact assigned_readInclude (s := s.drop) hread
  | _ => rfl

theorem AddsAll.assigned_eq (h : s.AddsAll c file es u) :
    u.assigned = s.assigned.insertAll
      (es.flatMap fun e => e.part.assignments c.files file) := by
  induction es generalizing s with
  | nil =>
    obtain rfl := h
    rfl
  | cons e es ih =>
    obtain ⟨t, hadds, hall⟩ := h
    rw [ih hall, hadds.assigned_eq, List.flatMap_cons, ByName.insertAll_append]

/-! ## Everything but the variables -/

/-- Parts add the same to loads that differ in their variables alone, whatever is around them. -/
theorem Adds.eq_but_assigned {vars : Variables} (h : s.Adds c pos x t)
    (h' : State.Adds c' pos { s with assigned := vars } x t')
    (hparallel : c'.options.defaultParallel = c.options.defaultParallel) :
    ∃ vars', t' = { t with assigned := vars' } := by
  cases h <;> cases h'
  case element =>
    rw [hparallel]
    exact ⟨vars, rfl⟩
  all_goals exact ⟨_, rfl⟩

theorem AddsAll.eq_but_assigned {vars : Variables} (h : s.AddsAll c file es u)
    (h' : State.AddsAll c' file { s with assigned := vars } es u')
    (hparallel : c'.options.defaultParallel = c.options.defaultParallel) :
    ∃ vars', u' = { u with assigned := vars' } := by
  induction es generalizing s vars with
  | nil =>
    obtain rfl := h
    exact ⟨vars, h'⟩
  | cons e es ih =>
    obtain ⟨t, hadds, hall⟩ := h
    obtain ⟨t', hadds', hall'⟩ := h'
    obtain ⟨vars', rfl⟩ := hadds.eq_but_assigned hadds' hparallel
    exact ih hall hall'

end State

/-! ## Loads -/

theorem readSibling_ok {c : Setting} {path : String} {d e : Loaded}
    (h : (readSibling c path d).result = .ok e) :
    e = { d with assigned := d.assigned.insertAll (c.siblingAssignments path) } := by
  unfold readSibling at h
  unfold Setting.siblingAssignments Surroundings.assignments
  by_cases hsibling : c.options.siblingConfig = true
  · by_cases hpresent : c.files.isPresent (c.options.siblingPath path) = true
    · cases hread : (readConfigFile (c.options.siblingPath path)
          (c.files.read (c.options.siblingPath path)) d.assigned).all.result with
      | error e => simp [hsibling, hpresent, hread, Except.bind, Except.map] at h
      | ok vars =>
        obtain ⟨text, hcontent, rfl⟩ := all_readConfigFile hread
        simp only [hsibling, hpresent, hread, Bool.not_true, Bool.false_eq_true, if_false, if_true,
          Logged.result_bind, Logged.result_log, Except.bind, Logged.result_pure,
          Except.ok.injEq] at h
        rw [if_pos hsibling, if_pos hpresent, hcontent, ← h]
    · rw [if_pos hsibling, if_neg hpresent]
      simp only [hsibling, hpresent, Bool.not_true, Bool.false_eq_true, if_false,
        Logged.result_bind, Logged.result_log, Except.bind, Logged.result_pure,
        Except.ok.injEq] at h
      exact h.symm
  · rw [if_neg hsibling]
    simp only [hsibling, Bool.not_false, if_true, Logged.result_pure, Except.ok.injEq] at h
    exact h.symm

theorem loadFile_ok_iff {c : Setting} {path : String} {d : Loaded} :
    (loadFile c path).result = .ok d ↔
      ∃ text e, c.files.read path = .ok text ∧ (loadText c path text).result = .ok e ∧
        (readSibling c path e).result = .ok d := by
  unfold loadFile
  cases hread : c.files.read path with
  | error e => simp
  | ok text =>
    simp only [Logged.result_bind, Except.ok.injEq, exists_and_left, exists_eq_left']
    cases hload : (loadText c path text).result with
    | error e => simp [Except.bind]
    | ok e => simp [Except.bind]

/-- **Variables.** The variables of a document that loads are those that its own assignments make,
each include standing for the assignments of its file, and behind them those of the file beside the
document. No other line of the document counts: what is a line of a command, of a block or of a
procedure is none of its assignments. -/
theorem assigned_of_loadFile {c : Setting} {path : String} {d : Loaded}
    (h : (loadFile c path).result = .ok d) :
    ∃ text es, c.files.read path = .ok text ∧ Consists 0 (Text.lines text) es ∧
      (∀ es', Consists 0 (Text.lines text) es' → es' = es) ∧
      d.assigned = .ofList ((es.flatMap fun e => e.part.assignments c.files path) ++
        c.siblingAssignments path) := by
  obtain ⟨text, e, hread, hload, hsibling⟩ := loadFile_ok_iff.1 h
  obtain ⟨es, u, hes, hall, hfinish⟩ := loadText_ok_iff_consists.1 hload
  obtain ⟨-, -, rfl⟩ := State.finish_ok_iff.1 hfinish
  obtain rfl := readSibling_ok hsibling
  refine ⟨text, es, hread, hes, fun es' hes' => hes'.unique hes, ?_⟩
  show u.assigned.insertAll _ = _
  rw [hall.assigned_eq, ← ByName.insertAll_append]
  exact ByName.insertAll_empty _

/-- A document with two includes, the first one between attributes, and with lines that look like
assignments in a procedure and in a command. -/
def includingDocument : String :=
  Text.unlines ["#@ desc: dropped", "include vars.conf", "#@ desc: kept", "build() \x7b", "\tw = 9",
    "\x7d", "echo 'w", "w = 8'", "x = 1", "include missing.conf", "y = 2"]

/-- The document in a directory, with the first of the included files and one beside it. -/
def Setting.crowded : Setting where
  options := {}
  files :=
    { isPresent := fun path => ["ci/doc.pipe", "ci/vars.conf", "ci/doc.pipe.conf"].contains path
      read := fun path =>
        if path = "ci/doc.pipe" then .ok includingDocument
        else if path = "ci/vars.conf" then .ok (Text.unlines ["# shared", "x = 0", "z = 3"])
        else if path = "ci/doc.pipe.conf" then .ok "y = 4\n"
        else .error .notFound }

/-- The document alone, and included files looked for elsewhere. -/
def Setting.lonely : Setting where
  options := { siblingConfig := false, configSuffix := ".env" }
  files :=
    { isPresent := (· = "ci/doc.pipe")
      read := fun path =>
        if path = "ci/doc.pipe" then .ok includingDocument else .error .notFound
      naming := ⟨fun _ => "elsewhere"⟩ }

/-- What the document loads to, beside its variables. -/
def includingPipeline : Pipeline :=
  ⟨#[⟨[.ofLine "echo 'w\nw = 8'"], false⟩, ⟨[.ofLine "w = 9"], false⟩],
    .ofList [("build", ⟨"build", 1, [("desc", "kept")]⟩)],
    .ofList [("build", ⟨"ci/doc.pipe", 4⟩)]⟩

theorem result_loadFile_crowded :
    (loadFile .crowded "ci/doc.pipe").result =
      .ok ⟨includingPipeline, .ofList [("x", "1"), ("y", "4"), ("z", "3")]⟩ := by
  decide +kernel

/-- The file beside the document comes last, and no command is taken for an assignment. -/
theorem assigned_of_loadFile_crowded :
    (loadFile .crowded "ci/doc.pipe").result =
        .ok ⟨includingPipeline, .ofList [("x", "1"), ("y", "4"), ("z", "3")]⟩ ∧
      ∃ text es, Setting.crowded.files.read "ci/doc.pipe" = .ok text ∧
        Consists 0 (Text.lines text) es ∧
        (∀ es', Consists 0 (Text.lines text) es' → es' = es) ∧
        ByName.ofList [("x", "1"), ("y", "4"), ("z", "3")] =
          .ofList ((es.flatMap fun e => e.part.assignments Setting.crowded.files "ci/doc.pipe") ++
            Setting.crowded.siblingAssignments "ci/doc.pipe") :=
  ⟨result_loadFile_crowded, assigned_of_loadFile result_loadFile_crowded⟩

/-- **Noninterference.** When a document loads in two surroundings, with the default block parallel
in both or in none, then the two pipelines are the same, and so is what their checks come to. -/
theorem pipeline_eq_of_loadFile {c c' : Setting} {path text : String} {d d' : Loaded}
    (hread : c.files.read path = .ok text) (hread' : c'.files.read path = .ok text)
    (hparallel : c'.options.defaultParallel = c.options.defaultParallel)
    (h : (loadFile c path).result = .ok d) (h' : (loadFile c' path).result = .ok d') :
    d'.pipeline = d.pipeline ∧ d'.pipeline.check = d.pipeline.check := by
  have hpipeline : d'.pipeline = d.pipeline := by
    obtain ⟨found, e, hfound, hload, hsibling⟩ := loadFile_ok_iff.1 h
    obtain ⟨found', e', hfound', hload', hsibling'⟩ := loadFile_ok_iff.1 h'
    obtain rfl := Except.ok.inj (hread.symm.trans hfound)
    obtain rfl := Except.ok.inj (hread'.symm.trans hfound')
    obtain ⟨es, u, hes, hall, hfinish⟩ := loadText_ok_iff_consists.1 hload
    obtain ⟨es', u', hes', hall', hfinish'⟩ := loadText_ok_iff_consists.1 hload'
    obtain rfl := hes.unique hes'
    have hstart : State.start c'.options = State.start c.options := by
      unfold State.start
      rw [hparallel]
    rw [hstart] at hall'
    obtain ⟨vars, rfl⟩ := hall.eq_but_assigned hall' hparallel
    obtain ⟨-, -, rfl⟩ := State.finish_ok_iff.1 hfinish
    obtain ⟨-, -, rfl⟩ := State.finish_ok_iff.1 hfinish'
    rw [readSibling_ok hsibling, readSibling_ok hsibling']
  exact ⟨hpipeline, congrArg Pipeline.check hpipeline⟩

/-- Without the other files the document has other variables, and the same pipeline. -/
theorem pipeline_eq_of_loadFile_lonely :
    ∃ d d', (loadFile .crowded "ci/doc.pipe").result = .ok d ∧
      (loadFile .lonely "ci/doc.pipe").result = .ok d' ∧ d'.assigned ≠ d.assigned ∧
      d'.pipeline = d.pipeline ∧ d'.pipeline.check = d.pipeline.check := by
  have hload' : (loadFile .lonely "ci/doc.pipe").result =
      .ok ⟨includingPipeline, .ofList [("x", "1"), ("y", "2")]⟩ := by
    decide +kernel
  have hread : Setting.crowded.files.read "ci/doc.pipe" = .ok includingDocument := by
    decide +kernel
  have hread' : Setting.lonely.files.read "ci/doc.pipe" = .ok includingDocument := by
    decide +kernel
  exact ⟨_, _, result_loadFile_crowded, hload', by decide +kernel,
    pipeline_eq_of_loadFile hread hread' rfl result_loadFile_crowded hload'⟩

end Runbook.Document
