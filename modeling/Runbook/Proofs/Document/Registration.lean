import Runbook.Proofs.Document.Provenance
import Runbook.Proofs.Document.Rejection

/-!
# Declarations and procedures in step

A header declares its procedure before the body is read, and the procedure is registered behind the
body, so in between the declarations are one name ahead (`State.Begun.declared`). What a run
declares are the headers that it meets between entries, each at its own line
(`State.declarations_perm_of_run`); at the end of the text there are as many procedures
(`loadText_registers`).
-/

namespace Runbook.Document

/-- The entry that a header makes among the declarations. -/
def Declaration.entry (d : Declaration) : String × Position :=
  (d.name, d.pos)

namespace State

/-- The header that a line is, if it stands between entries. -/
def headerAt (s : State) (pos : Position) (line : String) : List Declaration :=
  match s.mode, classify line with
  | .idle, .header name _ => [⟨name, pos⟩]
  | _, _ => []

/-- The headers that a run meets between entries, as far as it comes. -/
def headers (s : State) (c : Setting) (file : String) (n : Nat) : List String → List Declaration
  | [] => []
  | line :: rest =>
    s.headerAt ⟨file, n + 1⟩ line ++
      match (s.step c ⟨file, n + 1⟩ line).result with
      | .ok t => t.headers c file (n + 1) rest
      | .error _ => []

variable {c : Setting} {pos : Position} {file line : String} {lines : List String} {n : Nat}
  {s s' t : State} {d : Declaration}

theorem headers_cons (h : s.Moves c ⟨file, n + 1⟩ line t) (lines : List String) :
    s.headers c file n (line :: lines) =
      s.headerAt ⟨file, n + 1⟩ line ++ t.headers c file (n + 1) lines := by
  rw [headers, step_ok_iff.2 h]

theorem of_mem_headerAt (h : d ∈ s.headerAt pos line) :
    d.pos = pos ∧ ∃ bracket, header? line = some (d.name, bracket) := by
  unfold headerAt at h
  split at h
  · next name bracket _ hline =>
    obtain rfl := List.mem_singleton.1 h
    exact ⟨rfl, bracket, header?_of_classify hline⟩
  · cases h

theorem Reads.headerAt_eq_nil {text : String} (h : s.Reads line s' text) :
    s.headerAt pos line = [] := by
  rcases h with ⟨u, hmode, -⟩ | ⟨hmode, hline, -⟩
  · simp [headerAt, hmode]
  · simp [headerAt, hmode, hline]

theorem Moves.declarations_perm (h : s.Moves c pos line t) :
    t.pipeline.declarations.entries.Perm
      ((s.headerAt pos line).map Declaration.entry ++ s.pipeline.declarations.entries) := by
  cases h with
  | header name bracket hmode hline hnew =>
    have hheader : s.headerAt pos line = [⟨name, pos⟩] := by simp [headerAt, hmode, hline]
    rw [hheader]
    exact ByName.entries_insert_perm _ pos (ByName.contains_eq_false_iff.2 hnew)
  | skip hmode hline => rcases hline with hline | hline <;> simp [headerAt, hmode, hline]
  | included target vars hmode hline => simp [headerAt, hmode, hline, drop]
  | opening b hmode hline => simp [headerAt, hmode, hline, drop, enter]
  | annotates a hmode hline => simp [headerAt, hmode, hline]
  | malformed hmode hline => simp [headerAt, hmode, hline]
  | assigns name value hmode hline => simp [headerAt, hmode, hline, drop]
  | unfinished s' text hreads => simp [hreads.headerAt_eq_nil, hreads.pipeline_eq, enter]
  | command s' text statements b hreads =>
    simp [hreads.headerAt_eq_nil, hreads.pipeline_eq, withTable, appendDefault]
  | await d hmode => simp [headerAt, hmode]
  | begin d b hmode => simp [headerAt, hmode, enter]
  | inside owner m m' u hmode => simp [headerAt, hmode, withTable, enter]
  | closing m b u hmode => simp [headerAt, hmode, withTable, appendDefault]
  | procedure d m b u hmode => simp [headerAt, hmode, withProcedure]

/-- **Declarations of a run.** They are the headers that it meets. -/
theorem declarations_perm_of_run (h : (s.run c file n lines).result = .ok t) :
    t.pipeline.declarations.entries.Perm
      ((s.headers c file n lines).map Declaration.entry ++ s.pipeline.declarations.entries) := by
  induction lines generalizing s n with
  | nil =>
    obtain rfl := Except.ok.inj h
    exact .refl _
  | cons line lines ih =>
    obtain ⟨u, hmove, hrun⟩ := run_cons_ok.1 h
    rw [headers_cons hmove, List.map_append, List.append_assoc]
    refine (ih hrun).trans ((hmove.declarations_perm.append_left _).trans ?_)
    exact List.perm_append_comm_assoc _ _ _

theorem exists_of_mem_headers (h : d ∈ s.headers c file n lines) :
    ∃ i line bracket, lines[i]? = some line ∧ header? line = some (d.name, bracket) ∧
      d.pos = ⟨file, n + i + 1⟩ := by
  induction lines generalizing s n with
  | nil => cases h
  | cons line lines ih =>
    rw [headers, List.mem_append] at h
    rcases h with h | h
    · obtain ⟨hpos, bracket, hline⟩ := of_mem_headerAt h
      exact ⟨0, line, bracket, rfl, hline, hpos⟩
    · split at h
      · next u _ =>
        obtain ⟨i, line', bracket, hi, hline, hpos⟩ := ih h
        rw [Nat.add_right_comm n 1 i] at hpos
        exact ⟨i + 1, line', bracket, hi, hline, hpos⟩
      · cases h

/-- A run meets at most one header at a line. -/
theorem pairwise_headers :
    (s.headers c file n lines).Pairwise (·.pos.line < ·.pos.line) := by
  induction lines generalizing s n with
  | nil => exact .nil
  | cons line lines ih =>
    have hfirst : (s.headerAt ⟨file, n + 1⟩ line).Pairwise (·.pos.line < ·.pos.line) := by
      unfold headerAt
      split
      · exact List.pairwise_singleton _ _
      · exact .nil
    rw [headers]
    split
    · refine List.pairwise_append.2 ⟨hfirst, ih, fun d hd e he => ?_⟩
      obtain ⟨i, -, -, -, -, hpos⟩ := exists_of_mem_headers he
      rw [(of_mem_headerAt hd).1, hpos]
      show n + 1 < n + 1 + i + 1
      omega
    · rwa [List.append_nil]

end State

/-- A pipeline that has registered what a text declares: its declarations are the headers that a
load of the lines meets, and its procedures are those declared. -/
structure Registers (file : String) (lines : List String) (headers : List Declaration)
    (p : Pipeline) : Prop where
  /-- As many procedures as headers. -/
  length_eq : p.procedures.entries.length = headers.length
  /-- The declarations are the headers. -/
  declared : p.declarations.entries.Perm (headers.map Declaration.entry)
  /-- Registered are the names that are declared. -/
  names : p.procedures.names = p.declarations.names
  /-- Each procedure is registered under its own name. -/
  named : ∀ name x, p.procedures.get? name = some x → x.name = name
  /-- Each procedure is declared at a line that is a header with this name. -/
  located : ∀ name pos, p.declarations.get? name = some pos →
    ∃ i line bracket, lines[i]? = some line ∧ header? line = some (name, bracket) ∧
      pos = ⟨file, i + 1⟩
  /-- No two procedures are declared at one line. -/
  apart : ∀ name name' pos pos', p.declarations.get? name = some pos →
    p.declarations.get? name' = some pos' → pos.line = pos'.line → name = name'

/-- A run that ends between entries has registered what it declares. -/
theorem State.registers_of_run {c : Setting} {file : String} {lines : List String} {s : State}
    (h : ((State.start c.options).run c file 0 lines).result = .ok s) (hmode : s.mode = .idle)
    (hnamed : ∀ e ∈ s.pipeline.procedures.entries, e.2.name = e.1) :
    Registers file lines ((State.start c.options).headers c file 0 lines) s.pipeline := by
  generalize hheaders : (State.start c.options).headers c file 0 lines = headers
  have hdeclared : s.pipeline.declarations.entries.Perm (headers.map Declaration.entry) := by
    have hperm := declarations_perm_of_run h
    rwa [hheaders, show (State.start c.options).pipeline.declarations.entries = [] from rfl,
      List.append_nil] at hperm
  have hnames : s.pipeline.procedures.names = s.pipeline.declarations.names := by
    apply ByName.names_eq_of_contains
    intro name
    have hbegun := (begun_of_run h (begun_start c.options)).declared name
    rw [hmode, show (Mode.owner? .idle) = none from rfl, Option.any_none, Bool.or_false] at hbegun
    exact hbegun.symm
  have hheader : ∀ {name pos}, s.pipeline.declarations.get? name = some pos →
      (⟨name, pos⟩ : Declaration) ∈ headers := by
    intro name pos hpos
    obtain ⟨d, hd, hentry⟩ := List.mem_map.1 (hdeclared.mem_iff.1 (ByName.mem_entries_iff.2 hpos))
    obtain ⟨rfl, rfl⟩ := Prod.mk.inj hentry
    exact hd
  have hlines : (headers.map (·.pos.line)).Nodup := by
    rw [← hheaders]
    exact List.pairwise_map.2 (pairwise_headers.imp Nat.ne_of_lt)
  refine ⟨?_, hdeclared, hnames, fun name x hx => hnamed _ (ByName.mem_entries_iff.2 hx), ?_, ?_⟩
  · have hlength := congrArg List.length hnames
    unfold ByName.names at hlength
    rw [List.length_map, List.length_map, hdeclared.length_eq, List.length_map] at hlength
    exact hlength
  · intro name pos hpos
    have hmem := hheader hpos
    rw [← hheaders] at hmem
    simpa only [Nat.zero_add] using exists_of_mem_headers hmem
  · intro name name' pos pos' hpos hpos' hline
    have hsame := List.inj_on_of_nodup_map hlines (hheader hpos) (hheader hpos') hline
    exact congrArg Declaration.name hsame

/-- **Declarations and procedures.** No text makes the loader register a procedure twice; and when
a text loads, the procedures are those of the headers that were met, each under the name in it and
declared at its line. -/
theorem loadText_registers (c : Setting) (file text : String) :
    (∀ name, (loadText c file text).result ≠ .error (.misuse (.procedureTwice name))) ∧
      ∀ d, (loadText c file text).result = .ok d →
        Registers file (Text.lines text)
          ((State.start c.options).headers c file 0 (Text.lines text)) d.pipeline := by
  refine ⟨fun name => loadText_ne_misuse c file text _, fun d h => ?_⟩
  have hnamed := fun e he => ((sound_of_loadText h).names e he).1
  obtain ⟨s, hrun, hfinish⟩ := loadText_ok_iff.1 h
  obtain ⟨hmode, -, rfl⟩ := State.finish_ok_iff.1 hfinish
  obtain ⟨hlength, hdeclared, hnames, hnamed, hlocated, hapart⟩ :=
    State.registers_of_run hrun hmode hnamed
  exact ⟨hlength, hdeclared, hnames, hnamed, hlocated, hapart⟩

/-- A document with a header whose bracket stands further down, and a body in which the name of a
later procedure stands as in a header. -/
def shipDocument : String :=
  Text.unlines ["ship()", "", "# first build", "\x7b", "\tbuild()", "\x7d", "#@ desc: all",
    "build() \x7b\x7b", "\tmake", "\x7d\x7d"]

def shipLoaded : Loaded where
  pipeline :=
    ⟨#[.empty false, ⟨[.ofLine "build()"], false⟩, ⟨[.ofLine "make"], true⟩],
      .ofList [("ship", ⟨"ship", 1, []⟩), ("build", ⟨"build", 2, [("desc", "all")]⟩)],
      .ofList [("ship", ⟨"doc.pipe", 1⟩), ("build", ⟨"doc.pipe", 8⟩)]⟩
  assigned := .empty

theorem loadText_registers_shipDocument :
    (loadText .alone "doc.pipe" shipDocument).result = .ok shipLoaded ∧
      Registers "doc.pipe" (Text.lines shipDocument)
        [⟨"ship", ⟨"doc.pipe", 1⟩⟩, ⟨"build", ⟨"doc.pipe", 8⟩⟩] shipLoaded.pipeline := by
  have hload : (loadText .alone "doc.pipe" shipDocument).result = .ok shipLoaded := by
    decide +kernel
  have hheaders : (State.start Setting.alone.options).headers .alone "doc.pipe" 0
      (Text.lines shipDocument) = [⟨"ship", ⟨"doc.pipe", 1⟩⟩, ⟨"build", ⟨"doc.pipe", 8⟩⟩] := by
    decide +kernel
  have hregisters := (loadText_registers .alone "doc.pipe" shipDocument).2 shipLoaded hload
  rw [hheaders] at hregisters
  exact ⟨hload, hregisters⟩

end Runbook.Document
