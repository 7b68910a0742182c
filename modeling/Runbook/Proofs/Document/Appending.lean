import Runbook.Proofs.Document.Body

/-!
# What reading a block leaves alone

Reading a block moves the cursor on and adds blocks at the end of the table, whether it comes to the
closing bracket or not. The lines it gets over lead from one state of the open blocks to another
(`exists_follows_of_readNest`), so what a line keeps a reading keeps: the blocks that were there,
and that each new one has one reference, in a new block or in one that is still open
(`Nest.Follows.ownedFrom`). Together this is `readBlock_appends`.
-/

namespace Runbook

/-- The second pipeline is the first one with more blocks at its end. Each of these refers to blocks
between the end of the first pipeline and itself. -/
structure Pipeline.GrowsTo (p p' : Pipeline) : Prop where
  procedures : p'.procedures = p.procedures
  declarations : p'.declarations = p.declarations
  keeps : Table.Keeps p.blocks p'.blocks
  within : ∀ i block, p.blocks.size ≤ i → p'.blocks[i]? = some block →
    ∀ j ∈ block.references, p.blocks.size ≤ j ∧ j < i

/-- The block is the root of the new blocks, and none of them: each of them has one reference, in
another new block or in this one. -/
structure Pipeline.GrowsUnder (p p' : Pipeline) (block : Block) : Prop where
  within : ∀ j ∈ block.references, p.blocks.size ≤ j ∧ j < p'.blocks.size
  once : ∀ j, p.blocks.size ≤ j → j < p'.blocks.size →
    (Table.referencesFrom p.blocks.size p'.blocks ++ block.references).count j = 1

namespace Document

/-- The second source is the first one with the cursor where it was or further down. -/
structure Source.LeadsTo (s s' : Source) : Prop where
  file : s'.file = s.file
  lines : s'.lines = s.lines
  pos : s.pos.line ≤ s'.pos.line

/-- The pipeline when a reading has filled its table: the reading has nothing else of it in
hand. -/
def Reading.into {α : Type} (r : Reading α) (p : Pipeline) : Pipeline :=
  { p with blocks := r.table }

/-! ## Lines that stay inside -/

namespace Nest

variable {n n' : Nest} {t t' : Table} {lines : List String} {line : String} {a : Advance}

theorem Moves.keeps (h : n.Moves line t a) : t.Keeps a.table :=
  fun _ _ hb => h.getElem?_table hb

theorem Follows.keeps (h : n.Follows lines t n' t') : t.Keeps t' := by
  induction h with
  | nil n t => exact .refl t
  | cons hmove _ ih => exact hmove.keeps.trans ih

theorem Moves.ownedFrom_held {k : Nat} (h : n.Moves line t a) (howned : t.OwnedFrom k n.held) :
    a.table.OwnedFrom k a.held := by
  have hmoved := h.ownedFrom (show t.OwnedFrom k (n.held ++ []) by rwa [List.append_nil])
  rwa [List.append_nil] at hmoved

theorem Follows.ownedFrom {k : Nat} (h : n.Follows lines t n' t') (howned : t.OwnedFrom k n.held) :
    t'.OwnedFrom k n'.held := by
  induction h with
  | nil n t => exact howned
  | cons hmove _ ih => exact ih (hmove.ownedFrom_held howned)

end Nest

/-! ## Readings -/

/-- A reading gets over lines that stay inside; with the next one, if there is one, it fails or comes
to the closing bracket. -/
theorem exists_follows_of_readNest (file : String) (n : Nest) (t : Table)
    (seen rest : List String) :
    ∃ read behind n' t', rest = read ++ behind ∧ n.Follows read t n' t' ∧
      (readNest file n t seen rest).source =
        ⟨file, behind.take 1 ++ (read.reverse ++ seen), behind.drop 1⟩ ∧
      ((∃ e, (readNest file n t seen rest).outcome.result = .error e) ∧
          (readNest file n t seen rest).table = t' ∨
        ∃ closing block, n'.Moves closing t' (.closed block (readNest file n t seen rest).table) ∧
          (readNest file n t seen rest).outcome.result = .ok block) := by
  induction rest generalizing n t seen with
  | nil => exact ⟨[], [], n, t, rfl, .nil n t, rfl, .inl ⟨⟨_, rfl⟩, rfl⟩⟩
  | cons line rest ih =>
    unfold readNest
    dsimp only
    cases hstep : (n.step t ⟨file, seen.length + 1⟩ line).result with
    | error e => exact ⟨[], line :: rest, n, t, rfl, .nil n t, rfl, .inl ⟨⟨e, rfl⟩, rfl⟩⟩
    | ok a =>
      have hmove := Nest.step_ok_iff.1 hstep
      cases a with
      | closed block u =>
        exact ⟨[], line :: rest, n, t, rfl, .nil n t, rfl, .inr ⟨line, block, hmove, rfl⟩⟩
      | inside n' u =>
        obtain ⟨read, behind, m, v, rfl, hfollows, hsource, hend⟩ := ih n' u (line :: seen)
        refine ⟨line :: read, behind, m, v, rfl, .cons hmove hfollows, hsource.trans ?_, hend⟩
        simp

theorem readBlock_leadsTo (s : Source) (t : Table) (b : Bracket) :
    s.LeadsTo (readBlock s t b).source := by
  obtain ⟨read, behind, -, -, hrest, -, hsource, -⟩ :=
    exists_follows_of_readNest s.file (.new b) t s.seen s.rest
  unfold readBlock
  rw [hsource]
  refine ⟨rfl, ?_, ?_⟩
  · unfold Source.lines
    rw [hrest]
    cases behind <;> simp
  · show s.seen.length ≤ (behind.take 1 ++ (read.reverse ++ s.seen)).length
    rw [List.length_append, List.length_append]
    omega

theorem current_of_readBlock {s : Source} {t : Table} {b : Bracket} {block : Block}
    (h : (readBlock s t b).outcome.result = .ok block) :
    s.pos.line < (readBlock s t b).source.pos.line ∧
      rightBracket? (readBlock s t b).source.current = some b := by
  obtain ⟨body, closing, rest, xs, hlines, hspells, hclosing, -⟩ := readBlock_ok_iff.1 h
  rw [(readBlock_of_spells t hlines hspells hclosing).2.1]
  refine ⟨?_, hclosing⟩
  simp only [Source.pos, List.length_cons, List.length_append]
  omega

/-- A reading owns the blocks that it adds, through the block that was read or those still open. -/
theorem exists_ownedFrom_of_readBlock (s : Source) (t : Table) (b : Bracket) :
    ∃ held, (readBlock s t b).table.OwnedFrom t.size held ∧
      ∀ block, (readBlock s t b).outcome.result = .ok block → held = block.references := by
  obtain ⟨read, -, n, u, -, hfollows, -, hend⟩ :=
    exists_follows_of_readNest s.file (.new b) t s.seen s.rest
  have howned : u.OwnedFrom t.size n.held := hfollows.ownedFrom (.start t)
  rcases hend with ⟨⟨e, herror⟩, htable⟩ | ⟨closing, block, hmove, hok⟩
  · refine ⟨n.held, htable ▸ howned, fun block h => ?_⟩
    cases herror.symm.trans h
  · refine ⟨block.references, hmove.ownedFrom_held howned, fun block' h => ?_⟩
    rw [Except.ok.inj (hok.symm.trans h)]

theorem readBlock_keeps (s : Source) (t : Table) (b : Bracket) :
    t.Keeps (readBlock s t b).table := by
  obtain ⟨read, -, n, u, -, hfollows, -, hend⟩ :=
    exists_follows_of_readNest s.file (.new b) t s.seen s.rest
  rcases hend with ⟨-, htable⟩ | ⟨closing, block, hmove, -⟩
  · unfold readBlock
    rw [htable]
    exact hfollows.keeps
  · exact hfollows.keeps.trans hmove.keeps

/-- A load gets over the lines that are read with nothing changed but its table. -/
theorem run_of_readBlock (c : Setting) (s : Source) {b : Bracket} {u : State}
    {owner : Option Declaration} (hmode : u.mode = .body owner (.new b)) :
    ∃ read n, read <+: s.rest ∧ (u.run c s.file s.seen.length read).result = .ok
      { u with
        pipeline := (readBlock s u.pipeline.blocks b).into u.pipeline
        mode := .body owner n } := by
  obtain ⟨read, behind, n, t, hrest, hfollows, -, hend⟩ :=
    exists_follows_of_readNest s.file (.new b) u.pipeline.blocks s.seen s.rest
  have htable : (readBlock s u.pipeline.blocks b).table = t := by
    rcases hend with ⟨-, htable⟩ | ⟨closing, block, hmove, -⟩
    · exact htable
    · exact hmove.block_eq.2.2.2
  refine ⟨read, n, hrest ▸ List.prefix_append read behind, ?_⟩
  rw [State.run_of_follows s.file hfollows hmode rfl, ← htable]
  rfl

/-- **Appending.** Whether reading a block succeeds or fails, it leaves the source as it was, the
cursor apart, and adds blocks at the end of the table, which refer to new blocks before them only; a
load that reads the block changes nothing else of the pipeline. When it succeeds, the block refers
to new blocks only and is none of them, and the cursor has moved on to its closing bracket. -/
theorem readBlock_appends (s : Source) (p : Pipeline) (b : Bracket) :
    s.LeadsTo (readBlock s p.blocks b).source ∧
      p.GrowsTo ((readBlock s p.blocks b).into p) ∧
      (∀ (c : Setting) (u : State) (owner : Option Declaration),
          u.pipeline = p → u.mode = .body owner (.new b) →
        ∃ read n, read <+: s.rest ∧ (u.run c s.file s.seen.length read).result =
          .ok { u with pipeline := (readBlock s p.blocks b).into p, mode := .body owner n }) ∧
      ∀ block, (readBlock s p.blocks b).outcome.result = .ok block →
        p.GrowsUnder ((readBlock s p.blocks b).into p) block ∧
          s.pos.line < (readBlock s p.blocks b).source.pos.line ∧
          rightBracket? (readBlock s p.blocks b).source.current = some b := by
  obtain ⟨held, howned, hheld⟩ := exists_ownedFrom_of_readBlock s p.blocks b
  refine ⟨readBlock_leadsTo s p.blocks b, ⟨rfl, rfl, readBlock_keeps s p.blocks b, ?_⟩, ?_, ?_⟩
  · intro i block hi hblock j hj
    have hrange := howned.mem_range
      (List.mem_append_left _ (Table.mem_referencesFrom hi hblock hj))
    exact ⟨hrange.1, howned.below i block hi hblock j hj⟩
  · rintro c u owner rfl hmode
    exact run_of_readBlock c s hmode
  · intro block h
    obtain rfl := hheld block h
    refine ⟨⟨fun j hj => howned.mem_range (List.mem_append_right _ hj), fun j hlow hhigh => ?_⟩,
      current_of_readBlock h⟩
    exact (howned.once j).trans (if_pos ⟨hlow, hhigh⟩)

/-- A pipeline with a procedure, the default block of which refers to a block that is not there. -/
def strayPipeline : Pipeline :=
  ⟨#[⟨[.block 7], false⟩, ⟨[.ofLine "make"], false⟩], .ofList [("build", ⟨"build", 1, []⟩)],
    .ofList [("build", ⟨"doc.pipe", 3⟩)]⟩

/-- What the block of `bodySource` becomes behind two other blocks. -/
def strayBlock : Block :=
  ⟨[.block 2, .block 3, .ofLine "echo 'x\ny'", .block 4], true⟩

theorem readBlock_appends_strayPipeline :
    ∃ p, p = (readBlock bodySource strayPipeline.blocks .parallel).into strayPipeline ∧
      p.blocks.size = 5 ∧ strayPipeline.GrowsTo p ∧ strayPipeline.GrowsUnder p strayBlock ∧
      rightBracket? (readBlock bodySource strayPipeline.blocks .parallel).source.current =
        some .parallel := by
  have hread : (readBlock bodySource strayPipeline.blocks .parallel).outcome.result =
      .ok strayBlock := by
    decide +kernel
  obtain ⟨-, hgrows, -, hok⟩ := readBlock_appends bodySource strayPipeline .parallel
  obtain ⟨hunder, -, hcurrent⟩ := hok strayBlock hread
  exact ⟨_, rfl, by decide +kernel, hgrows, hunder, hcurrent⟩

end Document

end Runbook
