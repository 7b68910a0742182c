import Runbook.Proofs.Document.Transition
import Runbook.Proofs.Pipeline.Outline

/-!
# Loaded documents are forests

While a document is read, the open blocks and the default block in the making hold references that
are in no block yet. With these counted, every block of the table has one reference throughout: each
move of the loader keeps this (`Nest.Moves.owned`, `State.Moves.owned`), so a run does, and at its
end nothing is held but the bodies of the procedures. Hence a loaded pipeline is a forest, before
and after the promotion of its calls, and every block of it has an outline.
-/

namespace Runbook.Document

/-! ## Open blocks -/

def Frame.held (f : Frame) : List Nat :=
  referencesOf f.items

/-- The references in all open blocks. -/
def Nest.held (n : Nest) : List Nat :=
  n.inner.held ++ n.outer.flatMap Frame.held

/-- The references that are in no block of the table when a line inside brackets is read. -/
def Advance.held : Advance → List Nat
  | .inside n _ => n.held
  | .closed b _ => b.references

/-- The table when a line inside brackets is read. -/
def Advance.table : Advance → Table
  | .inside _ t => t
  | .closed _ t => t

theorem Frame.count_references_block (f : Frame) (j : Nat) :
    f.block.references.count j = f.held.count j := by
  unfold block Block.references held
  rw [referencesOf_reverse, List.count_reverse]

@[simp] theorem Frame.held_append (f : Frame) (xs : List Item) :
    (f.append xs).held = (referencesOf xs).reverse ++ f.held := by
  unfold append held
  rw [referencesOf_append, referencesOf_reverse]

@[simp] theorem Nest.held_new (b : Bracket) : (Nest.new b).held = [] := rfl

theorem Nest.Moves.getElem?_table {n : Nest} {line : String} {t : Table} {a : Advance}
    (h : n.Moves line t a) {i : Nat} {b : Block} (hb : t[i]? = some b) : a.table[i]? = some b := by
  cases h with
  | command text statements => exact Placement.getElem?_addTo _ hb
  | nested f fs => exact Table.getElem?_push_of_some hb n.inner.block
  | skip => exact hb
  | unfinished => exact hb
  | opening => exact hb
  | closing => exact hb

/-- A move inside brackets keeps every block owned, from any index on and whatever else holds
references. -/
theorem Nest.Moves.ownedFrom {n : Nest} {line : String} {t : Table} {a : Advance} {k : Nat}
    {rest : List Nat} (h : n.Moves line t a) (howned : t.OwnedFrom k (n.held ++ rest)) :
    a.table.OwnedFrom k (a.held ++ rest) := by
  cases h with
  | skip => exact howned
  | unfinished => exact howned
  | command text statements hreads hscan =>
    apply (howned.ofCommand text statements n.inner.bracket.isParallel).congr
    intro j
    simp only [Advance.held, Nest.held, Frame.held_append, List.count_append, List.count_reverse]
    omega
  | opening b =>
    apply howned.congr
    intro j
    simp only [Advance.held, Nest.held, List.flatMap_cons, List.count_append]
    simp [Frame.held, Frame.new]
  | nested f fs hcommand houter hline =>
    have hblock :
        t.OwnedFrom k (n.inner.block.references ++ (n.outer.flatMap Frame.held ++ rest)) := by
      apply howned.congr
      intro j
      simp only [Nest.held, List.count_append, Frame.count_references_block]
      omega
    apply hblock.push.congr
    intro j
    simp only [Advance.held, Nest.held, houter, List.flatMap_cons, Frame.held_append,
      referencesOf_block, referencesOf_nil, List.reverse_singleton, List.count_append,
      List.count_cons, List.count_nil]
    omega
  | closing hcommand houter hline =>
    apply howned.congr
    intro j
    simp only [Advance.held, Nest.held, houter, List.flatMap_nil, List.count_append,
      Frame.count_references_block]
    simp

theorem Nest.Moves.owned {n : Nest} {line : String} {t : Table} {a : Advance} {rest : List Nat}
    (h : n.Moves line t a) (howned : t.Owned (n.held ++ rest)) :
    a.table.Owned (a.held ++ rest) := by
  refine howned.of_ownedFrom (fun b hb => h.getElem?_table hb) fun more hfrom => ?_
  rw [List.append_assoc] at hfrom ⊢
  exact h.ownedFrom hfrom

/-! ## Loads -/

/-- The references in the blocks that are being read. -/
def Mode.held : Mode → List Nat
  | .body _ n => n.held
  | _ => []

namespace State

def bodies (s : State) : List Nat :=
  s.pipeline.procedures.values.map Procedure.blockIndex

/-- The references that are in no block of the table. -/
def held (s : State) : List Nat :=
  s.mode.held ++ referencesOf s.items ++ s.bodies

/-- Every block has one reference, in the table or held. -/
def Owned (s : State) : Prop :=
  Table.Owned s.pipeline.blocks s.held

theorem owned_start (options : Options) : (start options).Owned := by
  refine ⟨Nat.one_pos, fun j => ?_, fun i b hi hb => ?_⟩
  · show ([] : List Nat).count j = if 1 ≤ j ∧ j < 1 then 1 else 0
    rw [if_neg (by omega)]
    rfl
  · have hsize := (Array.getElem?_eq_some_iff.1 hb).1
    exact absurd hsize (by simp [start, Pipeline.empty]; omega)

theorem count_bodies_insert {p : Pipeline} {name : String} {x : Procedure}
    (hnew : p.procedures.contains name = false) (j : Nat) :
    ((p.procedures.insert name x).values.map Procedure.blockIndex).count j =
      (x.blockIndex :: p.procedures.values.map Procedure.blockIndex).count j := by
  have hperm := ((p.procedures.entries_insert_perm x hnew).map (·.2)).map Procedure.blockIndex
  exact hperm.count_eq j

/-- **Ownership.** A move of the loader keeps every block owned. -/
theorem Moves.owned {c : Setting} {pos : Position} {line : String} {s t : State}
    (h : s.Moves c pos line t) (howned : s.Owned) : t.Owned := by
  unfold Owned held at howned ⊢
  cases h with
  | skip => exact howned
  | included => exact howned
  | header name bracket hmode =>
    rw [hmode] at howned
    cases bracket <;> exact howned
  | opening b hmode =>
    rw [hmode] at howned
    exact howned
  | annotates => exact howned
  | malformed => exact howned
  | assigns => exact howned
  | unfinished s' text hreads =>
    rcases hreads with ⟨u, hmode, rfl, -⟩ | ⟨hmode, -, rfl, -⟩ <;>
    · rw [hmode] at howned
      exact howned
  | command s' text statements b hreads =>
    have hstate : s'.items = s.items ∧ s'.pipeline = s.pipeline ∧ s.mode.held = [] := by
      rcases hreads with ⟨u, hmode, rfl, -⟩ | ⟨hmode, -, rfl, -⟩ <;> simp [hmode, Mode.held, drop]
    obtain ⟨hitems, hpipeline, hmode⟩ := hstate
    rw [hmode] at howned
    apply (howned.ofCommand text statements b.parallel).congr
    intro j
    simp only [appendDefault, withTable, Mode.held, bodies, hitems, hpipeline, referencesOf_append,
      referencesOf_reverse, List.count_append, List.count_reverse]
    omega
  | await => exact howned
  | begin d b hmode =>
    rw [hmode] at howned
    exact howned
  | inside owner n n' u hmode hline =>
    rw [hmode, List.append_assoc] at howned
    have := hline.owned howned
    rw [← List.append_assoc] at this
    exact this
  | closing n b u hmode hline =>
    rw [hmode, List.append_assoc] at howned
    apply (hline.owned howned).push.congr
    intro j
    simp only [Advance.table, appendDefault, withTable, Mode.held, bodies,
      referencesOf_append, referencesOf_block, referencesOf_nil, List.reverse_singleton,
      List.count_append, List.count_cons, List.count_nil]
    omega
  | procedure d n b u hmode hline hnew =>
    rw [hmode, List.append_assoc] at howned
    apply (hline.owned howned).push.congr
    intro j
    simp only [Advance.table, withProcedure, Mode.held, bodies, List.nil_append, List.count_append,
      count_bodies_insert hnew, List.count_cons]
    omega

theorem Moves.getElem?_blocks {c : Setting} {pos : Position} {line : String} {s t : State}
    (h : s.Moves c pos line t) {i : Nat} {b : Block} (hb : s.pipeline.blocks[i]? = some b) :
    t.pipeline.blocks[i]? = some b := by
  cases h with
  | command s' text statements b' => exact Placement.getElem?_addTo _ hb
  | inside owner n n' u hmode hline => exact hline.getElem?_table hb
  | closing n b' u hmode hline => exact Table.getElem?_push_of_some (hline.getElem?_table hb) b'
  | procedure d n b' u hmode hline =>
    exact Table.getElem?_push_of_some (hline.getElem?_table hb) b'
  | unfinished s' text hreads =>
    show s'.pipeline.blocks[i]? = some b
    rw [hreads.pipeline_eq, hb]
  | skip => exact hb
  | included => exact hb
  | header => exact hb
  | opening => exact hb
  | annotates => exact hb
  | malformed => exact hb
  | assigns => exact hb
  | await => exact hb
  | begin => exact hb

theorem getElem?_blocks_of_run {c : Setting} {file : String} {n : Nat} {lines : List String}
    {s t : State} (h : (s.run c file n lines).result = .ok t) {i : Nat} {b : Block}
    (hb : s.pipeline.blocks[i]? = some b) : t.pipeline.blocks[i]? = some b :=
  run_invariant (P := fun u => u.pipeline.blocks[i]? = some b)
    (fun _ _ _ _ _ hmoves => hmoves.getElem?_blocks) h hb

theorem owned_of_run {c : Setting} {file : String} {n : Nat} {lines : List String} {s t : State}
    (h : (s.run c file n lines).result = .ok t) (hs : s.Owned) : t.Owned :=
  run_invariant (fun _ _ _ _ _ hmoves => hmoves.owned) h hs

/-- At the end of a document nothing is held but the bodies of the procedures. -/
theorem owned_of_finish {s : State} {last : Position} {d : Loaded}
    (h : (s.finish last).result = .ok d) (hs : s.Owned) :
    Table.Owned d.pipeline.blocks (d.pipeline.procedures.values.map Procedure.blockIndex) := by
  obtain ⟨hmode, -, rfl⟩ := finish_ok_iff.1 h
  unfold Owned held at hs
  rw [hmode] at hs
  apply Table.Owned.appendDefault
  apply hs.congr
  intro j
  simp only [Mode.held, bodies, List.nil_append, referencesOf_reverse, List.count_append,
    List.count_reverse]

end State

/-- The end of a load gives the default block, which is empty until then, its items. -/
theorem State.default_of_finish {s : State} {last : Position} {d : Loaded} {parallel : Bool}
    (h : (s.finish last).result = .ok d)
    (hempty : s.pipeline.blocks[Pipeline.defaultIndex]? = some (.empty parallel)) :
    d.pipeline.blocks[Pipeline.defaultIndex]? = some ⟨s.items.reverse, parallel⟩ := by
  obtain ⟨-, -, rfl⟩ := State.finish_ok_iff.1 h
  rw [Array.getElem?_modify, if_pos rfl, hempty]
  rfl

theorem exists_default_of_loadText {c : Setting} {file text : String} {d : Loaded}
    (h : (loadText c file text).result = .ok d) :
    ∃ b, d.pipeline.blocks[Pipeline.defaultIndex]? = some b ∧
      b.parallel = c.options.defaultParallel := by
  obtain ⟨s, hrun, hfinish⟩ := loadText_ok_iff.1 h
  have hempty := State.getElem?_blocks_of_run hrun (i := Pipeline.defaultIndex)
    (b := .empty c.options.defaultParallel) rfl
  exact ⟨_, State.default_of_finish hfinish hempty, rfl⟩

theorem owned_of_loadText {c : Setting} {file text : String} {d : Loaded}
    (h : (loadText c file text).result = .ok d) :
    Table.Owned d.pipeline.blocks (d.pipeline.procedures.values.map Procedure.blockIndex) := by
  obtain ⟨s, hrun, hfinish⟩ := loadText_ok_iff.1 h
  exact State.owned_of_finish hfinish (State.owned_of_run hrun (State.owned_start c.options))

/-- **Forests.** The table of a loaded document is a forest, and still is when its calls are
promoted; every block of it has a tree, and the document can be written. -/
theorem isForest_of_load {c : Setting} {file text : String} {d : Loaded}
    (h : (loadText c file text).result = .ok d) :
    ∀ p, p = d.pipeline ∨ p = d.pipeline.check.1 →
      p.IsForest ∧ (∀ i < p.blocks.size, ∃ tree, p.tree i = .ok tree) ∧
        ∀ encode, ∃ written, p.render encode = .ok written := by
  have howned := owned_of_loadText h
  intro p hp
  have hforest : p.IsForest := by
    rcases hp with rfl | rfl
    · exact Pipeline.isForest_of_owned howned
    · exact Pipeline.isForest_of_owned howned.check
  refine ⟨hforest, fun i hi => hforest.ranked.exists_tree hi, fun encode => ?_⟩
  apply hforest.ranked.exists_render hforest.nonempty
  intro x hx
  apply hforest.inRange
  exact List.mem_append_right _ (List.mem_map_of_mem hx)

/-- A load that sees no other file. -/
def Setting.alone : Setting :=
  ⟨{}, ⟨fun _ => false, fun _ => .error .notFound⟩⟩

/-- A document with a procedure, nested blocks, a wrapped command and a call. -/
def nestedDocument : String :=
  Text.unlines ["a() \x7b", "\techo x", "\x7d", "\x7b", "\t\x7b\x7b", "\t\ta k=1; b", "\t\x7d\x7d",
    "\ta k='2'", "\x7d"]

theorem isForest_of_load_nestedDocument :
    ∃ d, (loadText .alone "doc.pipe" nestedDocument).result = .ok d ∧
      ∀ p, p = d.pipeline ∨ p = d.pipeline.check.1 →
        p.IsForest ∧ (∀ i < p.blocks.size, ∃ tree, p.tree i = .ok tree) ∧
          ∀ encode, ∃ written, p.render encode = .ok written := by
  have hok : (loadText .alone "doc.pipe" nestedDocument).result.isOk := by
    decide +kernel
  cases h : (loadText .alone "doc.pipe" nestedDocument).result with
  | ok d => exact ⟨d, rfl, isForest_of_load h⟩
  | error e =>
    rw [h] at hok
    cases hok

end Runbook.Document
