import Runbook.Proofs.Document.Forest
import Runbook.Proofs.Pipeline.Joining
import Runbook.Proofs.Text.Physical

/-!
# One document behind another

The load of two documents whose texts stand one behind the other is the load of the first, joined
with that of the second (`State.followedBy`): each line of the second document makes the same move
in both loads, but for the places of blocks and the numbers of lines (`State.Moves.followedBy`).
Only a header can tell them apart, when its name is declared in the first document.
-/

namespace Runbook.Document

/-! ## Lines inside brackets -/

/-- The open block with its references moved up in the table. -/
def Frame.shift (k : Nat) (f : Frame) : Frame :=
  { f with items := f.items.map (.shift k) }

def Nest.shift (k : Nat) (n : Nest) : Nest :=
  ⟨n.inner.shift k, n.outer.map (.shift k), n.command⟩

def Advance.behind (t : Table) : Advance → Advance
  | .inside n u => .inside (n.shift t.offset) (t.followedBy u)
  | .closed b u => .closed (b.shift t.offset) (t.followedBy u)

theorem Frame.shift_append (k : Nat) (f : Frame) (xs : List Item) :
    (f.append xs).shift k = (f.shift k).append (xs.map (.shift k)) := by
  simp [append, shift]

theorem Frame.shift_block (k : Nat) (f : Frame) : (f.shift k).block = f.block.shift k := by
  simp [block, shift, Block.shift]

@[simp] theorem Nest.shift_new (k : Nat) (b : Bracket) : (Nest.new b).shift k = .new b := rfl

theorem Nest.Moves.behind {n : Nest} {line : String} {t u : Table} {a : Advance}
    (h : n.Moves line u a) (ht : 0 < t.size) (hu : 0 < u.size) :
    (n.shift t.offset).Moves line (t.followedBy u) (a.behind t) := by
  cases h with
  | skip hcommand hright hleft hline => exact .skip hcommand hright hleft hline
  | unfinished text hreads hscan => exact .unfinished text hreads hscan
  | command text statements hreads hscan =>
    have hmove := Moves.command (n := n.shift t.offset) (t := t.followedBy u) text statements hreads
      hscan
    rw [← Placement.map_shift_itemsIn text statements _ ht hu,
      ← Placement.followedBy_addTo text statements _ hu] at hmove
    simp only [Advance.behind, Nest.shift, Frame.shift_append]
    exact hmove
  | opening b hcommand hright hline => exact .opening b hcommand hright hline
  | nested f fs hcommand houter hline =>
    have hmove := Moves.nested (n := n.shift t.offset) (t := t.followedBy u) (f.shift t.offset)
      (fs.map (.shift t.offset)) hcommand (by simp [Nest.shift, houter]) hline
    rw [Table.size_followedBy ht hu] at hmove
    simp only [Advance.behind, Nest.shift, Frame.shift_append, Table.followedBy_push hu,
      ← Frame.shift_block]
    exact hmove
  | closing hcommand houter hline =>
    have hmove := Moves.closing (n := n.shift t.offset) (t := t.followedBy u) hcommand
      (by simp [Nest.shift, houter]) hline
    simp only [Advance.behind, ← Frame.shift_block]
    exact hmove

/-! ## Variables -/

theorem readAssignments_overwrite (file : String) (below vars : Variables) (count : Nat)
    (seen lines : List String) :
    readAssignments file (below.overwrite vars) count seen lines =
      { readAssignments file vars count seen lines with
        assigned := below.overwrite (readAssignments file vars count seen lines).assigned } := by
  induction lines generalizing vars count seen with
  | nil => rfl
  | cons line lines ih =>
    unfold readAssignments
    split
    · exact ih vars count (line :: seen)
    · exact ih vars count (line :: seen)
    · exact ih vars count (line :: seen)
    · next name value _ =>
      rw [← ByName.overwrite_insert]
      exact ih (vars.insert name value) (count + 1) (line :: seen)
    · rfl

theorem all_readConfigFile_overwrite {path : String} {content : Except Files.FileError String}
    {vars vars' : Variables} (below : Variables)
    (h : (readConfigFile path content vars).all.result = .ok vars') :
    (readConfigFile path content (below.overwrite vars)).all.result =
      .ok (below.overwrite vars') := by
  cases content with
  | error e => cases h
  | ok text =>
    unfold readConfigFile readConfig at h ⊢
    dsimp only at h ⊢
    rw [readAssignments_overwrite]
    unfold ConfigReading.all at h ⊢
    rw [Logged.result_bind] at h ⊢
    generalize readAssignments _ vars _ _ _ = r at h ⊢
    cases hresult : r.outcome.result with
    | error e =>
      rw [hresult] at h
      cases h
    | ok _ =>
      rw [hresult] at h
      obtain rfl := Except.ok.inj h
      rfl

/-! ## Loads behind loads -/

/-- The header some lines further down. -/
def Declaration.shift (lines : Nat) (d : Declaration) : Declaration :=
  { d with pos := d.pos.shift lines }

/-- The mode behind another document: references move up by `k`, headers down by some lines. -/
def Mode.shift (k lines : Nat) : Mode → Mode
  | .idle => .idle
  | .command text => .command text
  | .header d => .header (d.shift lines)
  | .body owner n => .body (owner.map (.shift lines)) (n.shift k)

/-- The procedure that is being read. -/
def Mode.owner? : Mode → Option Declaration
  | .idle => none
  | .command _ => none
  | .header d => some d
  | .body owner _ => owner

/-- A document whose text stands behind that of another one with so many lines. -/
def Loaded.followedBy (d e : Loaded) (lines : Nat) : Loaded where
  pipeline := d.pipeline.followedBy e.pipeline lines
  assigned := d.assigned.overwrite e.assigned

namespace State

/-- A load with an empty default block, which has declared the procedures that it has and the one
that is being read. -/
structure Begun (parallel : Bool) (s : State) : Prop where
  default : s.pipeline.blocks[Pipeline.defaultIndex]? = some (.empty parallel)
  declared : ∀ name, s.pipeline.declarations.contains name =
    (s.pipeline.procedures.contains name || s.mode.owner?.any (name = ·.name))

/-- The load of a document behind one with so many lines that is loaded. -/
def followedBy (s t : State) (lines : Nat) : State where
  pipeline := s.pipeline.followedBy t.pipeline lines
  items := t.items.map (.shift s.pipeline.offset) ++ s.items
  assigned := s.assigned.overwrite t.assigned
  pending := t.pending
  mode := t.mode.shift s.pipeline.offset lines

variable {c : Setting} {pos : Position} {line text : String} {parallel : Bool} {lines : Nat}
  {s t t' : State}

theorem pipeline_followedBy :
    (s.followedBy t lines).pipeline = s.pipeline.followedBy t.pipeline lines := rfl

theorem Begun.nonempty (h : s.Begun parallel) : 0 < s.pipeline.blocks.size :=
  (Array.getElem?_eq_some_iff.1 h.default).1

theorem begun_start (options : Options) : (start options).Begun options.defaultParallel :=
  ⟨rfl, fun _ => rfl⟩

theorem Moves.begun (h : s.Moves c pos line t) (hs : s.Begun parallel) : t.Begun parallel := by
  refine ⟨h.getElem?_blocks hs.default, fun name => ?_⟩
  have hdeclared := hs.declared name
  cases h with
  | skip => exact hdeclared
  | included target vars hmode => exact hdeclared
  | header name' bracket hmode =>
    rw [hmode] at hdeclared
    show (s.pipeline.declarations.insert name' pos).contains name = _
    rw [ByName.contains_insert, hdeclared, Bool.or_comm]
    show ((s.pipeline.procedures.contains name || false) || _) = _
    rw [Bool.or_false]
    cases bracket <;> rfl
  | opening b hmode =>
    rw [hmode] at hdeclared
    exact hdeclared
  | annotates => exact hdeclared
  | malformed => exact hdeclared
  | assigns => exact hdeclared
  | unfinished s' text hreads =>
    rcases hreads with ⟨u, hmode, rfl, -⟩ | ⟨hmode, -, rfl, -⟩ <;>
    · rw [hmode] at hdeclared
      exact hdeclared
  | command s' text statements b hreads =>
    rcases hreads with ⟨u, hmode, rfl, -⟩ | ⟨hmode, -, rfl, -⟩ <;>
    · rw [hmode] at hdeclared
      exact hdeclared
  | await => exact hdeclared
  | begin d b hmode =>
    rw [hmode] at hdeclared
    exact hdeclared
  | inside owner n n' u hmode =>
    rw [hmode] at hdeclared
    exact hdeclared
  | closing n b u hmode =>
    rw [hmode] at hdeclared
    exact hdeclared
  | procedure d n b u hmode =>
    rw [hmode] at hdeclared
    show s.pipeline.declarations.contains name =
      ((s.pipeline.procedures.insert d.name _).contains name || _)
    rw [hdeclared, ByName.contains_insert, Bool.or_comm]
    exact (Bool.or_false _).symm

theorem begun_of_run {file : String} {n : Nat} {rows : List String}
    (h : (s.run c file n rows).result = .ok t) (hs : s.Begun parallel) : t.Begun parallel :=
  run_invariant (P := Begun parallel) (fun _ _ _ _ _ hmove => hmove.begun) h hs

/-- Between entries no procedure exists without its declaration. -/
theorem Begun.contains_eq_false {name : String} (hs : s.Begun parallel) (hmode : s.mode = .idle)
    (hnew : s.pipeline.declarations.get? name = none) :
    s.pipeline.procedures.contains name = false := by
  have hdeclared := hs.declared name
  rw [hmode, ByName.contains_eq_false_iff.2 hnew] at hdeclared
  exact (Bool.or_eq_false_iff.1 hdeclared.symm).1

theorem Reads.followedBy (s : State) (h : t.Reads line t' text) (lines : Nat) :
    (s.followedBy t lines).Reads line (s.followedBy t' lines) text := by
  rcases h with ⟨u, hmode, rfl, htext⟩ | ⟨hmode, hline, rfl, htext⟩
  · exact .inl ⟨u, by simp [State.followedBy, hmode, Mode.shift], rfl, htext⟩
  · exact .inr ⟨by simp [State.followedBy, hmode, Mode.shift], hline, rfl, htext⟩

theorem readInclude_followedBy {target : String} {vars : Variables}
    (h : (t.readInclude c pos target).result = .ok { t with assigned := vars }) :
    ((s.followedBy t lines).readInclude c (pos.shift lines) target).result =
      .ok { s.followedBy t lines with assigned := s.assigned.overwrite vars } := by
  rw [readInclude_assigned_iff] at h ⊢
  unfold Includes at h ⊢
  dsimp only [Position.shift, State.followedBy] at h ⊢
  split
  · next hpresent =>
    rw [if_pos hpresent] at h
    exact all_readConfigFile_overwrite s.assigned h
  · next hpresent =>
    rw [if_neg hpresent] at h
    exact ⟨h.1, by rw [h.2]⟩

theorem getElem?_default_followedBy (hs : s.Begun parallel) (ht : t.Begun parallel) :
    (s.followedBy t lines).pipeline.blocks[Pipeline.defaultIndex]? = some (.empty parallel) := by
  have hempty : Table.defaultItems t.pipeline.blocks = [] := by
    unfold Table.defaultItems
    rw [ht.default]
    rfl
  show (Table.followedBy _ _)[Pipeline.defaultIndex]? = _
  rw [Table.getElem?_followedBy_default hs.default, hempty, List.map_nil, Block.append_nil]

theorem followedBy_appendDefault (s t : State) (xs : List Item) (lines : Nat) :
    s.followedBy (t.appendDefault xs) lines =
      (s.followedBy t lines).appendDefault (xs.map (.shift s.pipeline.offset)) := by
  simp [State.followedBy, appendDefault, Mode.shift]

theorem followedBy_withTable (s t : State) (u : Table) (lines : Nat) :
    s.followedBy (t.withTable u) lines =
      (s.followedBy t lines).withTable (Table.followedBy s.pipeline.blocks u) := rfl

theorem followedBy_declare (s t : State) (name : String) (pos : Position) (m : Mode)
    (lines : Nat) :
    s.followedBy { t with pipeline := t.pipeline.declare name pos, mode := m } lines =
      { s.followedBy t lines with
        pipeline := (s.followedBy t lines).pipeline.declare name (pos.shift lines)
        mode := m.shift s.pipeline.offset lines } := by
  simp only [State.followedBy, Pipeline.followedBy, Pipeline.declare, Pipeline.offset,
    ByName.mapValues_insert, ByName.overwrite_insert]

theorem followedBy_withProcedure (s t : State) (name : String) (b : Block) {u : Table}
    (hs : 0 < s.pipeline.blocks.size) (hu : 0 < u.size) (lines : Nat) :
    s.followedBy (t.withProcedure name b u) lines =
      (s.followedBy t lines).withProcedure name (b.shift s.pipeline.offset)
        (Table.followedBy s.pipeline.blocks u) := by
  simp only [State.followedBy, Pipeline.followedBy, withProcedure, Pipeline.offset, Mode.shift,
    ByName.mapValues_insert, ByName.overwrite_insert, Table.followedBy_push hu,
    Table.size_followedBy hs hu, Procedure.shift]

def Apart (s t : State) : Prop :=
  ∀ name, t.pipeline.declarations.contains name = true →
    s.pipeline.declarations.contains name = false

theorem Apart.get?_declarations_followedBy {name : String} (h : s.Apart t')
    (hname : t'.pipeline.declarations.contains name = true)
    (hnew : t.pipeline.declarations.get? name = none) (lines : Nat) :
    (s.followedBy t lines).pipeline.declarations.get? name = none := by
  have hother := h name hname
  rw [ByName.contains_eq_false_iff] at hother
  rw [pipeline_followedBy, Pipeline.get?_declarations_followedBy, hnew, hother]
  rfl

theorem Apart.contains_procedures_followedBy {name : String} (h : s.Apart t')
    (hs : s.Begun parallel) (hname : t'.pipeline.declarations.contains name = true)
    (hnew : t.pipeline.procedures.contains name = false) (lines : Nat) :
    (s.followedBy t lines).pipeline.procedures.contains name = false := by
  have hother := h name hname
  rw [hs.declared, Bool.or_eq_false_iff] at hother
  rw [pipeline_followedBy, Pipeline.contains_followedBy, hother.1, hnew, Bool.or_false]

/-- **Moves behind a document.** A line of a document makes the same move behind another document
that is loaded, as long as no procedure is declared in both. -/
theorem Moves.followedBy (h : t.Moves c pos line t') (hs : s.Begun parallel)
    (ht : t.Begun parallel) (hapart : s.Apart t') (lines : Nat) :
    (s.followedBy t lines).Moves c (pos.shift lines) line (s.followedBy t' lines) := by
  have hmode : ∀ {m : Mode}, t.mode = m →
      (s.followedBy t lines).mode = m.shift s.pipeline.offset lines := by
    intro m hm
    rw [← hm]
    rfl
  cases h with
  | skip hm hline => exact .skip (hmode hm) hline
  | included target vars hm hline hread =>
    have hbehind : ((s.followedBy t.drop lines).readInclude c (pos.shift lines) target).result =
        .ok { s.followedBy t.drop lines with assigned := s.assigned.overwrite vars } :=
      readInclude_followedBy hread
    exact .included target (s.assigned.overwrite vars) (hmode hm) hline hbehind
  | header name bracket hm hline hnew =>
    have hdeclared : (t.pipeline.declarations.insert name pos).contains name = true := by
      rw [ByName.contains_insert, decide_eq_true rfl, Bool.true_or]
    have hfree := hapart.get?_declarations_followedBy hdeclared hnew lines
    rw [followedBy_declare]
    cases bracket <;> exact .header name _ (hmode hm) hline hfree
  | opening b hm hline => exact .opening b (hmode hm) hline
  | annotates a hm hline hread => exact .annotates a (hmode hm) hline hread
  | malformed hm hline hread => exact .malformed (hmode hm) hline hread
  | assigns name value hm hline =>
    have hmove : (s.followedBy t lines).Moves c (pos.shift lines) line _ :=
      .assigns name value (hmode hm) hline
    simp only [State.followedBy, ByName.overwrite_insert]
    exact hmove
  | unfinished t'' text hreads hscan => exact .unfinished _ text (hreads.followedBy s lines) hscan
  | command t'' text statements b hreads hscan hdefault =>
    obtain rfl :=
      Except.ok.inj (hdefault.symm.trans (Pipeline.defaultBlock_of_getElem? ht.default))
    rw [followedBy_appendDefault, followedBy_withTable,
      Placement.followedBy_addTo _ _ _ ht.nonempty]
    show State.Moves c _ line _ ((State.withTable _ _).appendDefault
      (List.map (.shift (Table.offset s.pipeline.blocks)) _))
    rw [Placement.map_shift_itemsIn _ _ _ hs.nonempty ht.nonempty]
    exact .command _ text statements _ (hreads.followedBy s lines) hscan
      (Pipeline.defaultBlock_of_getElem? (getElem?_default_followedBy hs ht))
  | await d hm hline => exact .await (d.shift lines) (hmode hm) hline
  | begin d b hm hcomment hline => exact .begin (d.shift lines) b (hmode hm) hcomment hline
  | inside owner n n' u hm hline =>
    exact .inside (owner.map (.shift lines)) _ _ _ (hmode hm)
      (hline.behind hs.nonempty ht.nonempty)
  | closing n b u hm hline =>
    have hu : 0 < u.size := (Array.getElem?_eq_some_iff.1 (hline.getElem?_table ht.default)).1
    have hmove : (s.followedBy t lines).Moves c (pos.shift lines) line _ :=
      .closing _ _ _ (hmode hm) (hline.behind hs.nonempty ht.nonempty)
    rw [followedBy_appendDefault, followedBy_withTable, Table.followedBy_push hu]
    rw [Table.size_followedBy hs.nonempty hu] at hmove
    exact hmove
  | procedure d n b u hm hline hnew =>
    have hu : 0 < u.size := (Array.getElem?_eq_some_iff.1 (hline.getElem?_table ht.default)).1
    have hdeclared : t.pipeline.declarations.contains d.name = true := by
      rw [ht.declared, hm]
      simp [Mode.owner?]
    rw [followedBy_withProcedure s t d.name b hs.nonempty hu]
    exact .procedure (d.shift lines) _ _ _ (hmode hm) (hline.behind hs.nonempty ht.nonempty)
      (hapart.contains_procedures_followedBy hs hdeclared hnew lines)

/-! ## Runs behind a document -/

theorem Moves.declarations_eq (h : s.Moves c pos line t) :
    t.pipeline.declarations = s.pipeline.declarations ∨
      ∃ name bracket, s.mode = .idle ∧ classify line = .header name bracket ∧
        s.pipeline.declarations.get? name = none ∧
        t.pipeline.declarations = s.pipeline.declarations.insert name pos := by
  cases h with
  | header name bracket hmode hline hnew => exact .inr ⟨name, bracket, hmode, hline, hnew, rfl⟩
  | unfinished s' text hreads =>
    left
    show s'.pipeline.declarations = _
    rw [hreads.pipeline_eq]
  | command s' text statements b hreads =>
    left
    show s'.pipeline.declarations = _
    rw [hreads.pipeline_eq]
  | skip => exact .inl rfl
  | included => exact .inl rfl
  | opening => exact .inl rfl
  | annotates => exact .inl rfl
  | malformed => exact .inl rfl
  | assigns => exact .inl rfl
  | await => exact .inl rfl
  | begin => exact .inl rfl
  | inside => exact .inl rfl
  | closing => exact .inl rfl
  | procedure => exact .inl rfl

variable {file name : String} {k : Nat} {rows : List String} {u : State} {p : Position}

theorem Moves.get?_declarations (h : s.Moves c pos line t)
    (hp : s.pipeline.declarations.get? name = some p) :
    t.pipeline.declarations.get? name = some p := by
  rcases h.declarations_eq with heq | ⟨name', -, -, -, hnew, heq⟩
  · rw [heq, hp]
  · rw [heq, ByName.get?_insert, if_neg, hp]
    rintro rfl
    cases hnew.symm.trans hp

theorem get?_declarations_of_run (h : (s.run c file k rows).result = .ok u)
    (hp : s.pipeline.declarations.get? name = some p) :
    u.pipeline.declarations.get? name = some p :=
  run_invariant (P := fun s => s.pipeline.declarations.get? name = some p)
    (fun _ _ _ _ _ hmove => hmove.get?_declarations) h hp

theorem declared_of_run (h : (s.run c file k rows).result = .ok u)
    (hp : u.pipeline.declarations.get? name = some p) :
    s.pipeline.declarations.get? name = some p ∨
      ∃ i row bracket, rows[i]? = some row ∧ classify row = .header name bracket ∧
        p = ⟨file, k + (i + 1)⟩ := by
  induction rows generalizing s k with
  | nil =>
    obtain rfl := Except.ok.inj h
    exact .inl hp
  | cons row rows ih =>
    obtain ⟨t, hmove, hrun⟩ := run_cons_ok.1 h
    rcases ih hrun with hp' | ⟨i, row', bracket, hrow, hline, rfl⟩
    · rcases hmove.declarations_eq with heq | ⟨name', bracket, -, hline, -, heq⟩
      · exact .inl (heq ▸ hp')
      · rw [heq, ByName.get?_insert] at hp'
        split at hp'
        · next hname =>
          obtain rfl := Option.some.inj hp'
          exact .inr ⟨0, row, bracket, rfl, hname ▸ hline, rfl⟩
        · exact .inl hp'
    · refine .inr ⟨i + 1, row', bracket, hrow, hline, ?_⟩
      rw [Nat.add_assoc, Nat.add_comm 1]

/-- **Runs behind a document.** Lines lead to the same load behind another document, when no
procedure is declared in both. -/
theorem run_followedBy (hs : s.Begun parallel) (ht : t.Begun parallel)
    (h : (t.run c file k rows).result = .ok u) (hapart : s.Apart u) (lines : Nat) :
    ((s.followedBy t lines).run c file (lines + k) rows).result = .ok (s.followedBy u lines) := by
  induction rows generalizing t k with
  | nil =>
    obtain rfl := Except.ok.inj h
    rfl
  | cons row rows ih =>
    obtain ⟨t', hmove, hrun⟩ := run_cons_ok.1 h
    have hapart' : s.Apart t' := by
      intro name hname
      obtain ⟨p, hp⟩ := ByName.contains_iff.1 hname
      exact hapart name (ByName.contains_iff.2 ⟨p, get?_declarations_of_run hrun hp⟩)
    exact run_cons_ok.2 ⟨_, hmove.followedBy hs ht hapart' lines, ih (hmove.begun ht) hrun⟩

theorem run_of_declared {bracket : Option Bracket} {previous : Position} (hmode : s.mode = .idle)
    (hline : classify line = .header name bracket)
    (hp : s.pipeline.declarations.get? name = some previous) (rows : List String) :
    (s.run c file k (line :: rows)).result =
      .error (.duplicateProcedure name ⟨file, k + 1⟩ previous) := by
  simp [run, step, hmode, stepIdle, hline, keepsPending, readHeader, hp, Except.bind]

/-- A header that is declared in the other load too is the reason that both share a name. -/
theorem Apart.contains_of_insert {name : String} {p : Position} (hapart : s.Apart t)
    (heq : t'.pipeline.declarations = t.pipeline.declarations.insert name p)
    (hclash : ¬s.Apart t') : s.pipeline.declarations.contains name = true := by
  by_contra hfree
  apply hclash
  intro other hother
  rw [heq, ByName.contains_insert, Bool.or_eq_true, decide_eq_true_eq] at hother
  rcases hother with rfl | hother
  · simpa using hfree
  · exact hapart other hother

/-- Behind the first header of a shared name all other shared names are declared. -/
theorem Apart.line_le_of_run {name : String} (hapart : s.Apart t)
    (heq : t'.pipeline.declarations = t.pipeline.declarations.insert name ⟨file, k + 1⟩)
    (hrun : (t'.run c file (k + 1) rows).result = .ok u) {other : String} {q : Position}
    (hq : u.pipeline.declarations.get? other = some q)
    (hother : s.pipeline.declarations.contains other = true) : k + 1 ≤ q.line := by
  rcases declared_of_run hrun hq with hq | ⟨i, -, -, -, -, rfl⟩
  · rw [heq, ByName.get?_insert] at hq
    split at hq
    · obtain rfl := Option.some.inj hq
      exact Nat.le_refl _
    · have hnone := hapart other (ByName.contains_iff.2 ⟨q, hq⟩)
      rw [hother] at hnone
      cases hnone
  · exact Nat.le_add_right (k + 1) (i + 1)

/-- **Headers in both documents.** Behind another document a load ends at the first header that is
declared there. -/
theorem run_followedBy_clash (hs : s.Begun parallel) (ht : t.Begun parallel)
    (h : (t.run c file k rows).result = .ok u) (hapart : s.Apart t) (hclash : ¬s.Apart u)
    (lines : Nat) :
    ∃ name p previous, u.pipeline.declarations.get? name = some p ∧
      s.pipeline.declarations.get? name = some previous ∧
      (∀ other q, u.pipeline.declarations.get? other = some q →
        s.pipeline.declarations.contains other = true → p.line ≤ q.line) ∧
      ((s.followedBy t lines).run c file (lines + k) rows).result =
        .error (.duplicateProcedure name (p.shift lines) previous) := by
  induction rows generalizing t k with
  | nil =>
    obtain rfl := Except.ok.inj h
    exact absurd hapart hclash
  | cons row rows ih =>
    obtain ⟨t', hmove, hrun⟩ := run_cons_ok.1 h
    by_cases hapart' : s.Apart t'
    · obtain ⟨name, p, previous, hp, hprevious, hfirst, herror⟩ := ih (hmove.begun ht) hrun hapart'
      have hstep :
          (s.followedBy t lines).Moves c ⟨file, lines + k + 1⟩ row (s.followedBy t' lines) :=
        hmove.followedBy hs ht hapart' lines
      exact ⟨name, p, previous, hp, hprevious, hfirst, (result_run_cons hstep rows).trans herror⟩
    · rcases hmove.declarations_eq with heq | ⟨name, bracket, hmode, hline, hnew, heq⟩
      · exact absurd (fun name hname => hapart name (heq ▸ hname)) hapart'
      -- The line is a header with a name of the first document: here both loads part.
      obtain ⟨previous, hprevious⟩ := ByName.contains_iff.1 (hapart.contains_of_insert heq hapart')
      refine ⟨name, ⟨file, k + 1⟩, previous, ?_, hprevious,
        fun other q hq hother => hapart.line_le_of_run heq hrun hq hother, ?_⟩
      · apply get?_declarations_of_run hrun
        rw [heq, ByName.get?_insert_self]
      · refine run_of_declared ?_ hline ?_ rows
        · simp [State.followedBy, hmode, Mode.shift]
        · rw [pipeline_followedBy, Pipeline.get?_declarations_followedBy, hnew, hprevious]
          rfl

theorem finish_followedBy {last : Position} {d e : Loaded} (hs : s.Begun parallel)
    (ht : t.Begun parallel) (hd : (s.finish pos).result = .ok d)
    (he : (t.finish p).result = .ok e) :
    ((s.followedBy t lines).finish last).result = .ok (d.followedBy e lines) := by
  obtain ⟨-, -, rfl⟩ := finish_ok_iff.1 hd
  obtain ⟨hmode, -, rfl⟩ := finish_ok_iff.1 he
  have hdefault : (s.followedBy t lines).pipeline.blocks[Pipeline.defaultIndex]? =
      some (.empty parallel) := getElem?_default_followedBy hs ht
  have hsize := (Array.getElem?_eq_some_iff.1 hdefault).1
  refine finish_ok_iff.2 ⟨by simp [State.followedBy, hmode, Mode.shift], hsize, ?_⟩
  have hblocks := Table.followedBy_modify hs.nonempty ht.default rfl s.items.reverse t.items.reverse
  simp only [Loaded.followedBy, Pipeline.followedBy, State.followedBy, Pipeline.offset,
    Table.offset_modify, hblocks, List.reverse_append, List.map_reverse]

end State

/-! ## Loads -/

/-- No attribute waits for a procedure behind the last line of a text. -/
def LeavesNoAttribute (c : Setting) (file text : String) : Prop :=
  ∀ s, ((State.start c.options).run c file 0 (Text.lines text)).result = .ok s → s.pending = []

variable {c : Setting} {file first second : String} {d e : Loaded}

theorem leavesNoAttribute_of_map {text : String}
    (h : ((State.start c.options).run c file 0 (Text.lines text)).result.map State.pending =
      .ok []) : LeavesNoAttribute c file text := by
  intro s hs
  rw [hs] at h
  exact Except.ok.inj h

theorem exists_run_of_loadText (h : (loadText c file first).result = .ok d) :
    ∃ s, ((State.start c.options).run c file 0 (Text.lines first)).result = .ok s ∧
      (s.finish ⟨file, (Text.lines first).length⟩).result = .ok d ∧
      s.mode = .idle ∧ s.Begun c.options.defaultParallel ∧
      ∀ name, s.pipeline.declarations.contains name = d.pipeline.procedures.contains name := by
  obtain ⟨s, hrun, hfinish⟩ := loadText_ok_iff.1 h
  obtain ⟨hmode, -, rfl⟩ := State.finish_ok_iff.1 hfinish
  have hbegun := State.begun_of_run hrun (State.begun_start c.options)
  refine ⟨s, hrun, hfinish, hmode, hbegun, fun name => ?_⟩
  have hdeclared := hbegun.declared name
  rw [hmode] at hdeclared
  exact hdeclared.trans (Bool.or_false _)

/-- Behind a text that leaves no attribute a second one is loaded as behind a document. -/
theorem loadText_append_eq {s : State} (hfirst : Text.EndsLine first)
    (hs : ((State.start c.options).run c file 0 (Text.lines first)).result = .ok s)
    (hmode : s.mode = .idle) (hpending : s.pending = []) :
    (loadText c file (first ++ second)).result =
      ((s.followedBy (.start c.options) (Text.lines first).length).run c file
        ((Text.lines first).length + 0) (Text.lines second)).result.bind
        fun u => (u.finish ⟨file, (Text.lines (first ++ second)).length⟩).result := by
  have hstart : s.followedBy (.start c.options) (Text.lines first).length = s := by
    obtain ⟨p, items, vars, pending, mode⟩ := s
    obtain rfl : mode = .idle := hmode
    obtain rfl : pending = [] := hpending
    simp only [State.followedBy, State.start, Pipeline.followedBy_empty, List.map_nil,
      List.nil_append, ByName.overwrite_empty, Mode.shift]
  unfold loadText loadLines
  rw [Logged.result_bind, Text.lines_append hfirst, State.result_run_append hs, hstart,
    Nat.zero_add, Nat.add_zero]

theorem loadText_followedBy (hfirst : Text.EndsLine first)
    (hd : (loadText c file first).result = .ok d) (hpending : LeavesNoAttribute c file first)
    (he : (loadText c file second).result = .ok e)
    (hapart : ∀ name, d.pipeline.procedures.contains name = true →
      e.pipeline.procedures.contains name = false) :
    (loadText c file (first ++ second)).result =
      .ok (d.followedBy e (Text.lines first).length) := by
  obtain ⟨s, hs, hsfinish, hmode, hbegun, hdeclared⟩ := exists_run_of_loadText hd
  obtain ⟨t, ht, htfinish, -, htbegun, htdeclared⟩ := exists_run_of_loadText he
  have hnone : s.Apart t := by
    intro name hname
    rw [htdeclared] at hname
    rw [hdeclared, ← Bool.not_eq_true]
    intro hboth
    rw [hapart name hboth] at hname
    cases hname
  rw [loadText_append_eq hfirst hs hmode (hpending s hs),
    State.run_followedBy hbegun (State.begun_start c.options) ht hnone]
  exact State.finish_followedBy hbegun htbegun hsfinish htfinish

/-- **Concatenation.** When two texts load, the first of which ends with a line and leaves no
attribute, then without a procedure in both the text of the first and the second loads to the first
pipeline followed by the second. Otherwise its load ends at the first header of the second text that
the first one declares, and names where. -/
theorem loadText_append (hfirst : Text.EndsLine first)
    (hd : (loadText c file first).result = .ok d) (hpending : LeavesNoAttribute c file first)
    (he : (loadText c file second).result = .ok e) :
    ((∀ name, d.pipeline.procedures.contains name = true →
        e.pipeline.procedures.contains name = false) →
      (loadText c file (first ++ second)).result =
        .ok (d.followedBy e (Text.lines first).length)) ∧
    ((∃ name, d.pipeline.procedures.contains name = true ∧
        e.pipeline.procedures.contains name = true) →
      ∃ i row name bracket previous, (Text.lines second)[i]? = some row ∧
        classify row = .header name bracket ∧
        e.pipeline.declarations.get? name = some ⟨file, i + 1⟩ ∧
        d.pipeline.declarations.get? name = some previous ∧
        (∀ other q, e.pipeline.declarations.get? other = some q →
          d.pipeline.procedures.contains other = true → i + 1 ≤ q.line) ∧
        (loadText c file (first ++ second)).result =
          .error (.duplicateProcedure name ⟨file, (Text.lines first).length + (i + 1)⟩
            previous)) := by
  refine ⟨loadText_followedBy hfirst hd hpending he, ?_⟩
  rintro ⟨shared, hshared, hshared'⟩
  obtain ⟨s, hs, hsfinish, hmode, hbegun, hdeclared⟩ := exists_run_of_loadText hd
  obtain ⟨t, ht, htfinish, -, htbegun, htdeclared⟩ := exists_run_of_loadText he
  have hclash : ¬s.Apart t := by
    intro hapart
    have hnone := hapart shared (by rw [htdeclared, hshared'])
    rw [hdeclared, hshared] at hnone
    cases hnone
  have hstart : s.Apart (.start c.options) := by
    rintro name ⟨⟩
  obtain ⟨name, p, previous, hp, hprevious, hleast, herror⟩ := State.run_followedBy_clash hbegun
    (State.begun_start c.options) ht hstart hclash (Text.lines first).length
  obtain ⟨-, -, rfl⟩ := State.finish_ok_iff.1 hsfinish
  obtain ⟨-, -, rfl⟩ := State.finish_ok_iff.1 htfinish
  rcases State.declared_of_run ht hp with hnone | ⟨i, row, bracket, hrow, hline, rfl⟩
  · cases hnone
  rw [Nat.zero_add] at hp hleast herror
  refine ⟨i, row, name, bracket, previous, hrow, hline, hp, hprevious, fun other q hq hother => ?_,
    ?_⟩
  · exact hleast other q hq ((hdeclared other).trans hother)
  · rw [loadText_append_eq hfirst hs hmode (hpending s hs), herror]
    rfl

/-- A document with an attribute, a wrapped command and a variable. -/
def buildDocument : String :=
  Text.unlines ["#@ desc: all", "build() \x7b\x7b", "\tmake a; make b", "\x7d\x7d", "x = 1"]

def buildLoaded : Loaded where
  pipeline :=
    ⟨#[.empty false, ⟨[.ofLine "make a", .ofLine "make b"], false⟩, ⟨[.block 1], true⟩],
      .ofList [("build", ⟨"build", 2, [("desc", "all")]⟩)], .ofList [("build", ⟨"doc.pipe", 2⟩)]⟩
  assigned := .ofList [("x", "1")]

/-- A document with a procedure, a command, a block and a variable. -/
def checkDocument : String :=
  Text.unlines ["make c", "check() \x7b", "\techo ok", "\x7d", "\x7b", "\tbuild", "\x7d", "x = 2"]

def checkLoaded : Loaded where
  pipeline :=
    ⟨#[⟨[.ofLine "make c", .block 2], false⟩, ⟨[.ofLine "echo ok"], false⟩,
        ⟨[.ofLine "build"], false⟩],
      .ofList [("check", ⟨"check", 1, []⟩)], .ofList [("check", ⟨"doc.pipe", 2⟩)]⟩
  assigned := .ofList [("x", "2")]

/-- Joined with the second document the first one loads to both, and joined with itself to
nothing. -/
theorem loadText_append_buildDocument :
    (loadText .alone "doc.pipe" buildDocument).result = .ok buildLoaded ∧
      (loadText .alone "doc.pipe" checkDocument).result = .ok checkLoaded ∧
      (loadText .alone "doc.pipe" (buildDocument ++ checkDocument)).result =
        .ok (buildLoaded.followedBy checkLoaded 5) ∧
      (loadText .alone "doc.pipe" (buildDocument ++ buildDocument)).result =
        .error (.duplicateProcedure "build" ⟨"doc.pipe", 7⟩ ⟨"doc.pipe", 2⟩) := by
  have hends : Text.EndsLine buildDocument := by decide +kernel
  have hbuild : (loadText .alone "doc.pipe" buildDocument).result = .ok buildLoaded := by
    decide +kernel
  have hcheck : (loadText .alone "doc.pipe" checkDocument).result = .ok checkLoaded := by
    decide +kernel
  have hpending : LeavesNoAttribute .alone "doc.pipe" buildDocument :=
    leavesNoAttribute_of_map (by decide +kernel)
  have hjoined := loadText_append hends hbuild hpending hcheck
  have hclash := loadText_append hends hbuild hpending hbuild
  refine ⟨hbuild, hcheck, hjoined.1 fun name hname => ?_, ?_⟩
  · have hentries : buildLoaded.pipeline.procedures.entries =
        [("build", ⟨"build", 2, [("desc", "all")]⟩)] := by
      decide +kernel
    obtain ⟨x, hx⟩ := ByName.contains_iff.1 hname
    rw [← ByName.mem_entries_iff, hentries, List.mem_singleton] at hx
    obtain ⟨rfl, rfl⟩ := Prod.mk.inj hx
    decide +kernel
  · obtain ⟨i, row, name, bracket, previous, -, -, hsecond, hfirst, -, herror⟩ :=
      hclash.2 ⟨"build", by decide +kernel, by decide +kernel⟩
    have hentries : buildLoaded.pipeline.declarations.entries = [("build", ⟨"doc.pipe", 2⟩)] := by
      decide +kernel
    rw [← ByName.mem_entries_iff, hentries, List.mem_singleton] at hsecond hfirst
    obtain ⟨rfl, rfl⟩ := Prod.mk.inj hfirst
    obtain rfl : i = 1 := by simpa using hsecond
    have hlines : (Text.lines buildDocument).length = 5 := by decide +kernel
    rw [hlines] at herror
    exact herror

end Runbook.Document
