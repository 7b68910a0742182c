import Runbook.Proofs.Document.Default
import Runbook.Proofs.Document.Progress

/-!
# Pipelines that are written and read

The text of a pipeline that is read back (`Pipeline.Rereadable`) loads, its calls are promoted, and
the pipeline that comes out runs the same way (`Pipeline.Rereadable.exists_reload`).
-/

namespace Runbook

open Document
open Shell (posix)

/-! ## Directories entry by entry -/

theorem ByName.contains_eq_of_names {α β : Type} {d : ByName α} {d' : ByName β}
    (h : d.names = d'.names) : d.contains = d'.contains := by
  funext name
  have hnames {γ : Type} (d : ByName γ) : d.contains name = d.names.any (· = name) := by
    unfold contains names
    rw [List.any_map]
    rfl
  rw [hnames, hnames, h]

theorem find?_of_forall₂ {α β : Type} {R : String × α → String × β → Prop} {name : String}
    (hR : ∀ e e', R e e' → e'.1 = e.1) {es : List (String × α)} {es' : List (String × β)}
    (h : List.Forall₂ R es es') {e : String × α} {e' : String × β}
    (he : es.find? (·.1 = name) = some e) (he' : es'.find? (·.1 = name) = some e') : R e e' := by
  induction h with
  | nil => cases he
  | @cons a b as bs hab _ ih =>
    by_cases hname : a.1 = name
    · rw [List.find?_cons_of_pos (by simpa using hname)] at he
      rw [List.find?_cons_of_pos (by simpa [hR a b hab] using hname)] at he'
      obtain rfl := Option.some.inj he
      obtain rfl := Option.some.inj he'
      exact hab
    · rw [List.find?_cons_of_neg (by simpa using hname)] at he
      rw [List.find?_cons_of_neg (by simpa [hR a b hab] using hname)] at he'
      exact ih he he'

theorem names_of_forall₂ {α β : Type} {R : String × α → String × β → Prop}
    (hR : ∀ e e', R e e' → e'.1 = e.1) {es : List (String × α)} {es' : List (String × β)}
    (h : List.Forall₂ R es es') : es'.map (·.1) = es.map (·.1) := by
  induction h with
  | nil => rfl
  | cons hab _ ih => rw [List.map_cons, List.map_cons, hR _ _ hab, ih]

namespace Document

variable {c : Setting} {p : Pipeline}

theorem render_ok {encode : Shell.Encoder} {text : String} (h : p.render encode = .ok text) :
    ∃ chunks last, p.procedures.values.mapM (p.procedureRows encode) = .ok chunks ∧
      p.defaultRows encode = .ok last ∧
      text = Text.unlines
        (List.intercalate [""] (chunks ++ if last.isEmpty then [] else [last])) := by
  unfold Pipeline.render Pipeline.rows at h
  cases hchunks : p.procedures.values.mapM (p.procedureRows encode) with
  | error e =>
    rw [hchunks] at h
    cases h
  | ok chunks =>
    cases hlast : p.defaultRows encode with
    | error e =>
      rw [hchunks, hlast] at h
      cases h
    | ok last =>
      rw [hchunks, hlast] at h
      exact ⟨chunks, last, rfl, rfl, (Except.ok.inj h).symm⟩

theorem flatMap_intercalate_last (last : List String) :
    (List.intercalate [""] (if last.isEmpty then [] else [last])).flatMap Text.physicalLines =
      last.flatMap Text.physicalLines := by
  cases last with
  | nil => rfl
  | cons row rows =>
    rw [List.isEmpty_cons, if_neg Bool.false_ne_true, List.intercalate_singleton]

/-! ## Before the first entry -/

theorem progress_start (c : Setting) (p : Pipeline) : Progress p [] (.start c.options) := by
  constructor
  · rfl
  · rfl
  · rfl
  · rfl
  · exact Nat.one_pos
  · intro b hb x hx
    obtain rfl := Array.mem_singleton.1 hb
    cases hx
  · intro name _
    rfl
  · exact .nil

/-! ## The end of the document -/

/-- The load when the text of a pipeline is read. -/
structure Reread (p : Pipeline) (parallel : Bool) (d : Loaded) : Prop where
  assigned : d.assigned = .empty
  procedures : List.Forall₂ (StandsFor p d.pipeline.blocks) p.procedures.entries
    d.pipeline.procedures.entries
  settled : Table.Settled p.procedures.contains d.pipeline.blocks
  default : ∃ b os, d.pipeline.blocks[Pipeline.defaultIndex]? = some b ∧ b.parallel = parallel ∧
    RepresentsAll p.procedures.contains d.pipeline.blocks os b.items ∧
    p.tree Pipeline.defaultIndex = .ok (Outline.group parallel os).simplify

theorem Progress.filled_nil {done : List (String × Procedure)} {s : State} (h : Progress p done s)
    (parallel : Bool) :
    State.Filled p.procedures.contains parallel (.group parallel []) s s := by
  refine ⟨h.mode, rfl, rfl, h.nonempty, .refl _, h.settled, ?_, [], ?_, ?_⟩
  · rw [h.items]
    simp
  · rw [h.items, List.reverse_nil, RepresentsAll]
  · exact Outline.simplify_group_nil parallel

/-- The end of the document moves the items into the default block. -/
theorem Progress.exists_reread {s t : State} {parallel : Bool} {tree : Outline}
    (h : Progress p p.procedures.entries s)
    (hfilled : State.Filled p.procedures.contains parallel tree s t)
    (htree : p.tree Pipeline.defaultIndex = .ok tree)
    (hdefault : t.pipeline.blocks[Pipeline.defaultIndex]? = some (.empty parallel))
    (last : Position) : ∃ d, (t.finish last).result = .ok d ∧ Reread p parallel d := by
  obtain ⟨os, hos, hsimplify⟩ := hfilled.tree
  have hextends := Table.Extends.modifyDefault t.pipeline.blocks (·.append t.items.reverse)
  refine ⟨_, State.finish_ok_iff.2 ⟨hfilled.mode, hfilled.nonempty, rfl⟩, ?_⟩
  constructor
  · exact hfilled.assigned.trans h.assigned
  · show List.Forall₂ _ _ t.pipeline.procedures.entries
    rw [hfilled.procedures]
    exact h.procedures.imp fun _ _ => StandsFor.mono (hfilled.grows.trans hextends)
  · intro b hb x hx
    rcases Table.mem_items_modify hb hx with hx | ⟨b', hb', hx⟩
    · exact hfilled.settled x (List.mem_reverse.1 hx)
    · exact hfilled.tableSettled b' hb' x hx
  · refine ⟨⟨t.items.reverse, parallel⟩, os, ?_, rfl, hos.mono hextends, ?_⟩
    · rw [Array.getElem?_modify, if_pos rfl, hdefault]
      rfl
    · rw [htree, hsimplify]

/-- **Reading what was written.** The text of a pipeline that is read back loads, whatever the file
is called and whatever other files there are. -/
theorem exists_reread_of_rereadable (hp : p.Rereadable) (file : String)
    (hparallel : ∀ b, p.blocks[Pipeline.defaultIndex]? = some b →
      b.parallel = c.options.defaultParallel) :
    ∃ text, p.render posix = .ok text ∧
      ∃ d, (loadText c file text).result = .ok d ∧ Reread p c.options.defaultParallel d := by
  obtain ⟨rank, hrank⟩ := hp.ranked
  obtain ⟨text, htext⟩ := hrank.exists_render hp.nonempty hp.roots posix
  obtain ⟨chunks, last, hchunks, hlast, hrows⟩ := render_ok htext
  obtain ⟨b, hblock, hb⟩ := Pipeline.exists_block hp.nonempty
  obtain ⟨s, k, hs, hprocedures⟩ := (progress_start c p).exists_progress (c := c) file hp
    (fun _ he => he) p.procedures.sorted hchunks (if last.isEmpty then [] else [last]) 0
  obtain ⟨b', hb'⟩ : ∃ b', s.pipeline.blocks[Pipeline.defaultIndex]? = some b' :=
    ⟨_, Array.getElem?_eq_getElem hs.nonempty⟩
  have hfilled : ∃ t tree, State.Filled p.procedures.contains c.options.defaultParallel tree s t ∧
      p.tree Pipeline.defaultIndex = .ok tree ∧
      (s.run c file k (last.flatMap Text.physicalLines)).result = .ok t := by
    rw [← hparallel b hb]
    rcases hp.defaultRows_cases hb hlast with ⟨rfl, htree⟩ | ⟨o, rfl, htree, ho, hbare⟩
    · exact ⟨s, _, hs.filled_nil b.parallel, htree, rfl⟩
    · obtain ⟨t, ht, hrun⟩ := State.exists_run_default (c := c) file ho hbare hs.mode
        hs.pending hs.items hb' hs.settled b.parallel k
      exact ⟨t, _, ht, htree, hrun⟩
  obtain ⟨t, tree, ht, htree, hrun⟩ := hfilled
  rw [flatMap_intercalate_last, hrun, ← Text.lines_unlines_flatMap, ← hrows] at hprocedures
  have hempty := State.getElem?_blocks_of_run hprocedures
    (i := Pipeline.defaultIndex) (b := .empty c.options.defaultParallel) rfl
  obtain ⟨d, hfinish, hd⟩ := hs.exists_reread ht htree hempty ⟨file, (Text.lines text).length⟩
  exact ⟨text, htext, d, loadText_ok_iff.2 ⟨t, hprocedures, hfinish⟩, hd⟩

/-! ## The check -/

theorem Reread.names {parallel : Bool} {d : Loaded} (h : Reread p parallel d) :
    d.pipeline.procedures.names = p.procedures.names :=
  names_of_forall₂ (fun _ _ he => he.1) h.procedures

/-- The check promotes every call, and the pipeline runs as the one that was written. -/
theorem Reread.alike_check {parallel : Bool} {d : Loaded} (h : Reread p parallel d)
    {rank : Nat → Nat} (hrank : d.pipeline.check.1.Ranked rank) :
    d.pipeline.check.2.result = .ok ⟨⟩ ∧ p.Alike d.pipeline.check.1 := by
  have hknown := ByName.contains_eq_of_names h.names
  obtain ⟨hcheck, hok⟩ := Pipeline.check_of_settled (p := d.pipeline) (by
    rw [hknown]
    exact h.settled)
  rw [hknown] at hcheck
  have hprocedures : d.pipeline.check.1.procedures = d.pipeline.procedures := by
    rw [hcheck]
  have hblocks : d.pipeline.check.1.blocks =
      d.pipeline.blocks.map (Block.promoted p.procedures.contains) := by
    rw [hcheck]
  generalize d.pipeline.check.1 = q at *
  refine ⟨hok, ?_, ?_, ?_⟩
  · rw [hprocedures, h.names]
  · intro name x y hx hy
    rw [hprocedures] at hy
    obtain ⟨e, he, rfl⟩ := Option.map_eq_some_iff.1 hx
    obtain ⟨e', he', rfl⟩ := Option.map_eq_some_iff.1 hy
    obtain ⟨-, hattributes, o, ho, hrep⟩ :=
      find?_of_forall₂ (fun _ _ he => he.1) h.procedures he he'
    have houtline := itemOutline_of_represents hrank hblocks hrep
    rw [promoted_block rfl] at houtline
    exact ⟨hattributes, o.simplify, Pipeline.tree_of_outline ho, Pipeline.tree_of_outline houtline⟩
  · obtain ⟨b, os, hb, hparallel, hos, htree⟩ := h.default
    have hget : q.blocks[Pipeline.defaultIndex]? = some (b.promoted p.procedures.contains) := by
      rw [hblocks, Array.getElem?_map, hb]
      rfl
    have houtline : q.outline Pipeline.defaultIndex = .ok (.group parallel os) := by
      rw [hrank.outline_eq hget]
      show ((b.items.map (Item.promoted p.procedures.contains)).mapM q.itemOutline).map _ = _
      rw [mapM_itemOutline_of_represents hrank hblocks hos, ← hparallel]
      rfl
    exact ⟨_, htree, Pipeline.tree_of_outline houtline⟩

/-- **Round trips.** The text of a pipeline that is read back loads without an assignment, its check
succeeds, and the pipeline that comes out has the same procedures and runs the same way. -/
theorem exists_reload_of_rereadable (hp : p.Rereadable) (file : String)
    (hparallel : ∀ b, p.blocks[Pipeline.defaultIndex]? = some b →
      b.parallel = c.options.defaultParallel) :
    ∃ text, p.render posix = .ok text ∧
      ∃ d, (loadText c file text).result = .ok d ∧ d.assigned = .empty ∧
        d.pipeline.check.2.result = .ok ⟨⟩ ∧ p.Alike d.pipeline.check.1 := by
  obtain ⟨text, htext, d, hload, hd⟩ := exists_reread_of_rereadable hp file hparallel
  have hforest := Pipeline.isForest_of_owned (owned_of_loadText hload).check
  exact ⟨text, htext, d, hload, hd.assigned, hd.alike_check hforest.ranked⟩

end Document

end Runbook
