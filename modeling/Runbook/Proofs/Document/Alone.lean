import Runbook.Proofs.ByName
import Runbook.Proofs.Document.Bare

/-!
# Commands on their own

A command of a pipeline can be looked at on its own: the procedures keep their names and lose their
bodies, and the default block runs nothing but the command, in a block or bare. The text of this
pipeline loads to one that runs the same way exactly when the command reads back
(`reloads_alone_iff`), and for a bare command when its first line is a command besides
(`reloads_bare_iff`). So no weaker condition on commands makes every pipeline survive being saved
and loaded.
-/

namespace Runbook

open Document
open Shell (posix)

/-! ## Pipelines that survive -/

/-- The text of the pipeline loads and passes the check, and the pipeline that comes out has the
same procedures and runs the same way. -/
def Pipeline.Reloads (p : Pipeline) (c : Setting) (file : String) : Prop :=
  ∃ text, p.render posix = .ok text ∧
    ∃ d, (loadText c file text).result = .ok d ∧ d.pipeline.check.2.result = .ok ⟨⟩ ∧
      p.Alike d.pipeline.check.1

namespace Pipeline

variable {p : Pipeline} {c : Setting} {file : String} {parallel : Bool} {items inner : List Item}
  {line : String}

/-- The procedures of a pipeline with empty bodies, a default block with some items, and a block
behind it. -/
def stripped (p : Pipeline) (parallel : Bool) (items inner : List Item) : Pipeline where
  blocks := #[⟨items, parallel⟩, ⟨inner, false⟩, ⟨[], false⟩]
  procedures := p.procedures.mapValues fun name _ => ⟨name, 2, []⟩
  declarations := .empty

/-- A command alone in a block. -/
def alone (p : Pipeline) (parallel : Bool) (line : String) : Pipeline :=
  p.stripped parallel [.block 1] [.shell line "" []]

/-- A command in the default block. -/
def bare (p : Pipeline) (parallel : Bool) (line : String) : Pipeline :=
  p.stripped parallel [.shell line "" []] []

theorem contains_stripped :
    (p.stripped parallel items inner).procedures.contains = p.procedures.contains :=
  ByName.contains_eq_of_names (ByName.names_mapValues _ _)

theorem outline_stripped : (p.stripped parallel items inner).outline 2 = .ok (.group false []) :=
  rfl

theorem outline_alone :
    (p.alone parallel line).outline defaultIndex =
      .ok (.group parallel [.group false [.shell line]]) :=
  rfl

theorem outline_bare :
    (p.bare parallel line).outline defaultIndex = .ok (.group parallel [.shell line]) :=
  rfl

theorem mem_blocks_stripped {b : Block} (h : b ∈ (p.stripped parallel items inner).blocks) :
    b = ⟨items, parallel⟩ ∨ b = ⟨inner, false⟩ ∨ b = ⟨[], false⟩ := by
  simpa [stripped] using h

theorem procedureRows_stripped (items inner : List Item) :
    (p.stripped parallel items inner).procedures.values.mapM
        ((p.stripped parallel items inner).procedureRows posix) =
      (p.stripped parallel [] []).procedures.values.mapM
        ((p.stripped parallel [] []).procedureRows posix) := by
  apply mapM_congr_ok
  intro x hx
  obtain ⟨e, he, rfl⟩ := List.mem_map.1 hx
  obtain ⟨e', -, rfl⟩ := List.mem_map.1 he
  unfold procedureRows
  rw [outline_stripped, outline_stripped]

/-- Readable items that refer to the block behind the default one at most. -/
theorem rereadable_stripped (hnames : ∀ e ∈ p.procedures.entries, IsProcedureName e.1)
    (hitems : ∀ x ∈ items, x.Readable p.procedures.contains ∧ ∀ j ∈ x.blockIndex?, j = 1)
    (hinner : ∀ x ∈ inner, x.Readable p.procedures.contains ∧ x.blockIndex? = none)
    (hbare : ∀ x text, items = [x] → x.text? posix = some text →
      ∀ line ∈ (Text.physicalLines text).head?, classify line = .command) :
    (p.stripped parallel items inner).Rereadable where
  nonempty := Nat.succ_pos 2
  ranked := by
    refine ⟨fun i => if i = 0 then 1 else 0, fun i b hb j hj => ?_, fun i _ => ?_⟩
    · obtain ⟨x, hx, hreference⟩ := List.mem_filterMap.1 hj
      rcases i with _ | _ | _ | i
      · obtain rfl := Option.some.inj hb
        obtain rfl := (hitems x hx).2 j hreference
        exact ⟨Nat.succ_lt_succ (Nat.succ_pos 1), Nat.one_pos⟩
      · obtain rfl := Option.some.inj hb
        cases (hinner x hx).2.symm.trans hreference
      · obtain rfl := Option.some.inj hb
        cases hx
      · cases hb
    · have hbound : (p.stripped parallel items inner).depthBound = 4 := rfl
      rw [hbound]
      split <;> omega
  roots := by
    intro x hx
    obtain ⟨e, he, rfl⟩ := List.mem_map.1 hx
    obtain ⟨e', -, rfl⟩ := List.mem_map.1 he
    exact Nat.lt_succ_self 2
  names := by
    intro e he
    obtain ⟨e', he', rfl⟩ := List.mem_map.1 he
    exact ⟨rfl, hnames e' he'⟩
  attributes := by
    intro x hx a ha
    obtain ⟨e, he, rfl⟩ := List.mem_map.1 hx
    obtain ⟨e', -, rfl⟩ := List.mem_map.1 he
    cases ha
  items := by
    intro b hb x hx
    rw [contains_stripped]
    rcases mem_blocks_stripped hb with rfl | rfl | rfl
    · exact (hitems x hx).1
    · exact (hinner x hx).1
    · cases hx
  bare := by
    intro b x text hb hx
    obtain rfl := Option.some.inj hb
    exact hbare x text hx

/-- When such a pipeline survives and runs a single command, the rows of its default block are read
between two entries, as the end of a document whose default block runs this command alone. -/
theorem exists_ending_of_reloads (hnames : ∀ e ∈ p.procedures.entries, IsProcedureName e.1)
    (h : (p.stripped c.options.defaultParallel items inner).Reloads c file) {last : List String}
    (hlast : (p.stripped c.options.defaultParallel items inner).defaultRows posix = .ok last)
    (htree : (p.stripped c.options.defaultParallel items inner).tree defaultIndex =
      .ok (.shell line)) :
    ∃ s u d, Ending c file (last.flatMap Text.physicalLines) line s u d ∧
      d.pipeline.procedures.contains = p.procedures.contains := by
  obtain ⟨text, htext, d, hload, hcheck, halike⟩ := h
  obtain ⟨chunks, last', hchunks, hlast', hrows⟩ := render_ok htext
  obtain rfl := Except.ok.inj (hlast.symm.trans hlast')
  rw [procedureRows_stripped] at hchunks
  have hp : (p.stripped c.options.defaultParallel [] []).Rereadable :=
    rereadable_stripped hnames (by simp) (by simp) (by simp)
  obtain ⟨s, k, hs, hprocedures⟩ := (progress_start c _).exists_progress (c := c) file hp
    (fun _ he => he) (ByName.sorted _) hchunks (if last.isEmpty then [] else [last]) 0
  obtain ⟨u, hrun, hfinish⟩ := loadText_ok_iff.1 hload
  have hempty := State.getElem?_blocks_of_run hrun (i := Pipeline.defaultIndex)
    (b := .empty c.options.defaultParallel) rfl
  rw [hrows, Text.lines_unlines_flatMap, hprocedures, flatMap_intercalate_last] at hrun
  obtain ⟨tree, hbefore, hbehind⟩ := halike.default
  obtain rfl := Except.ok.inj (hbefore.symm.trans htree)
  refine ⟨s, u, d, ⟨⟨k, hrun⟩, hs.mode, hs.items, hs.nonempty, ⟨_, hempty⟩, ⟨_, hfinish⟩, hcheck,
    Pipeline.isForest_of_owned (owned_of_loadText hload).check, hbehind⟩, ?_⟩
  apply ByName.contains_eq_of_names
  obtain ⟨hshape, -⟩ := check_of_settled (settled_of_check hcheck)
  have hkeep := halike.names
  rw [hshape] at hkeep
  exact hkeep.trans (ByName.names_mapValues _ _)

/-- **Commands on their own.** A pipeline with one command in a block survives exactly when the
command reads back. -/
theorem reloads_alone_iff (hnames : ∀ e ∈ p.procedures.entries, IsProcedureName e.1) (c : Setting)
    (file line : String) : (p.alone c.options.defaultParallel line).Reloads c file ↔
      ReadsBack p.procedures.contains line := by
  constructor
  · intro h
    have htree : (p.alone c.options.defaultParallel line).tree defaultIndex =
        .ok (.shell line) := by
      rw [tree_of_outline outline_alone, Outline.simplify_group_singleton,
        Outline.simplify_group_singleton, Outline.simplify]
    have hlast : (p.alone c.options.defaultParallel line).defaultRows posix =
        .ok ((Outline.group false [.shell line]).rows posix "") := rfl
    obtain ⟨s, u, d, hending, hcontains⟩ := exists_ending_of_reloads hnames h hlast htree
    have hlines : ((Outline.group false [.shell line]).rows posix "").flatMap Text.physicalLines =
        Bracket.sequential.opening ::
          (Text.physicalLines ("\t" ++ line) ++ [Bracket.sequential.closing]) := by
      have hfeed : '\n' ∉ ("" : String).toList := by simp
      have hopening : Text.physicalLines ("" ++ Bracket.sequential.opening) = _ :=
        physicalLines_opening hfeed
      have hclosing : Text.physicalLines ("" ++ Bracket.sequential.closing) = _ :=
        physicalLines_closing hfeed
      rw [String.empty_append] at hopening hclosing
      rw [Outline.rows, Outline.rowsAll, Outline.rows, Outline.rowsAll]
      have hbracket : Bracket.ofParallel false = .sequential := rfl
      simp only [hbracket, String.empty_append, List.append_nil, List.flatMap_cons,
        List.flatMap_append, List.flatMap_nil]
      rw [hopening, hclosing, List.singleton_append]
    rw [hlines] at hending
    rw [← hcontains]
    exact hending.readsBack_of_block
  · intro h
    have hp : (p.alone c.options.defaultParallel line).Rereadable := by
      refine rereadable_stripped hnames ?_ ?_ ?_
      · intro x hx
        obtain rfl := List.mem_singleton.1 hx
        exact ⟨trivial, fun j hj => (Option.some.inj hj).symm⟩
      · intro x hx
        obtain rfl := List.mem_singleton.1 hx
        exact ⟨h.readsAs, rfl⟩
      · intro x text hx htext
        obtain rfl := List.singleton_inj.1 hx
        cases htext
    obtain ⟨text, htext, d, hload, -, hreload⟩ := exists_reload_of_rereadable hp file (c := c) (by
      intro b hb
      obtain rfl := Option.some.inj hb
      rfl)
    exact ⟨text, htext, d, hload, hreload⟩

/-- **Bare commands.** A pipeline with one command in its default block survives exactly when the
command reads back and the first line of it is a command. -/
theorem reloads_bare_iff (hnames : ∀ e ∈ p.procedures.entries, IsProcedureName e.1) (c : Setting)
    (file line : String) : (p.bare c.options.defaultParallel line).Reloads c file ↔
      ReadsBack p.procedures.contains line ∧
        ∀ first ∈ (Text.physicalLines line).head?, classify first = .command := by
  constructor
  · intro h
    have htree : (p.bare c.options.defaultParallel line).tree defaultIndex =
        .ok (.shell line) := by
      rw [tree_of_outline outline_bare, Outline.simplify_group_singleton, Outline.simplify]
    have hlast : (p.bare c.options.defaultParallel line).defaultRows posix =
        .ok ((Outline.shell line).rows posix "") := rfl
    obtain ⟨s, u, d, hending, hcontains⟩ := exists_ending_of_reloads hnames h hlast htree
    have hlines : ((Outline.shell line).rows posix "").flatMap Text.physicalLines =
        Text.physicalLines line := by
      rw [Outline.rows, String.empty_append, List.flatMap_cons, List.flatMap_nil, List.append_nil]
    rw [hlines] at hending
    rw [← hcontains]
    exact hending.readsBack_of_bare
  · rintro ⟨h, hfirst⟩
    have hp : (p.bare c.options.defaultParallel line).Rereadable := by
      refine rereadable_stripped hnames ?_ (by simp) ?_
      · intro x hx
        obtain rfl := List.mem_singleton.1 hx
        exact ⟨h.readsAs, fun j hj => by cases hj⟩
      · intro x text hx htext
        obtain rfl := List.singleton_inj.1 hx
        obtain rfl := Option.some.inj htext
        exact hfirst
    obtain ⟨text, htext, d, hload, -, hreload⟩ := exists_reload_of_rereadable hp file (c := c) (by
      intro b hb
      obtain rfl := Option.some.inj hb
      rfl)
    exact ⟨text, htext, d, hload, hreload⟩

end Pipeline

end Runbook
