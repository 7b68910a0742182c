import Mathlib.Data.Finset.Card
import Mathlib.Logic.Relation
import Runbook.Pipeline.Outline
import Runbook.Proofs.Pipeline.Ownership

/-!
# Blocks that have outlines

Following references ends where every reference leads down in some rank. Then every block has an
outline and the pipeline can be written. In a forest the index is such a rank, except for the
default block, which stands above all others. In every table without a cycle the number of blocks
that are reached is one (`Pipeline.ranked_reach`).
-/

namespace Runbook

/-! ## Sequences of results -/

theorem exists_mapM_ok {α β ε : Type} {f : α → Except ε β} {xs : List α}
    (h : ∀ x ∈ xs, ∃ y, f x = .ok y) : ∃ ys, xs.mapM f = .ok ys := by
  induction xs with
  | nil => exact ⟨[], rfl⟩
  | cons x xs ih =>
    obtain ⟨⟨y, hy⟩, hxs⟩ := List.forall_mem_cons.1 h
    obtain ⟨ys, hys⟩ := ih hxs
    refine ⟨y :: ys, ?_⟩
    rw [List.mapM_cons, hy, hys]
    rfl

theorem mapM_congr_ok {α β ε : Type} {f g : α → Except ε β} {xs : List α}
    (h : ∀ x ∈ xs, f x = g x) : xs.mapM f = xs.mapM g := by
  induction xs with
  | nil => rfl
  | cons x xs ih =>
    obtain ⟨hx, hxs⟩ := List.forall_mem_cons.1 h
    rw [List.mapM_cons, List.mapM_cons, hx, ih hxs]

theorem mapM_cons_ok {α β ε : Type} {f : α → Except ε β} {x : α} {xs : List α} {zs : List β} :
    (x :: xs).mapM f = .ok zs ↔ ∃ y ys, f x = .ok y ∧ xs.mapM f = .ok ys ∧ zs = y :: ys := by
  rw [List.mapM_cons]
  cases f x with
  | error e => simp [bind, Except.bind]
  | ok y =>
    cases xs.mapM f with
    | error e => simp [bind, Except.bind]
    | ok ys => simp [bind, Except.bind, pure, Except.pure, eq_comm]

/-- What a function succeeds with on some values another one succeeds with on their images. -/
theorem mapM_map_ok {α β γ ε : Type} {f : α → Except ε β} {g : γ → Except ε β} {h : α → γ}
    {xs : List α} {ys : List β} (hfg : ∀ x ∈ xs, ∀ y, f x = .ok y → g (h x) = .ok y)
    (hxs : xs.mapM f = .ok ys) : (xs.map h).mapM g = .ok ys := by
  induction xs generalizing ys with
  | nil => exact hxs
  | cons x xs ih =>
    obtain ⟨hx, hrest⟩ := List.forall_mem_cons.1 hfg
    obtain ⟨y, ys, hy, hys, rfl⟩ := mapM_cons_ok.1 hxs
    rw [List.map_cons, mapM_cons_ok]
    exact ⟨y, ys, hx y hy, ih hrest hys, rfl⟩

theorem exists_of_mapM_ok {α β ε : Type} {f : α → Except ε β} {xs : List α} {ys : List β}
    (h : xs.mapM f = .ok ys) : ∀ y ∈ ys, ∃ x ∈ xs, f x = .ok y := by
  induction xs generalizing ys with
  | nil =>
    obtain rfl := Except.ok.inj h
    simp
  | cons x xs ih =>
    obtain ⟨y, ys', hy, hys, rfl⟩ := mapM_cons_ok.1 h
    refine List.forall_mem_cons.2 ⟨⟨x, List.mem_cons_self, hy⟩, fun z hz => ?_⟩
    obtain ⟨w, hw, hwz⟩ := ih hys z hz
    exact ⟨w, List.mem_cons_of_mem _ hw, hwz⟩

theorem mapM_result_map {α β γ ε : Type} (f : α → Except ε β) (g : β → γ) (xs : List α) :
    xs.mapM (fun x => (f x).map g) = (xs.mapM f).map (List.map g) := by
  induction xs with
  | nil => rfl
  | cons x xs ih =>
    rw [List.mapM_cons, List.mapM_cons, ih]
    cases f x with
    | error e => rfl
    | ok y => cases xs.mapM f <;> rfl

/-- Another value at one place makes no difference when it gives the same result. -/
theorem mapM_set_congr {α ε β : Type} {f g : α → Except ε β} {xs : List α} {m : Nat} {x y : α}
    (hfg : ∀ z ∈ xs, g z = f z) (hx : xs[m]? = some x) (hy : g y = f x) :
    (xs.set m y).mapM g = xs.mapM f := by
  induction xs generalizing m with
  | nil => cases hx
  | cons z xs ih =>
    obtain ⟨hz, hxs⟩ := List.forall_mem_cons.1 hfg
    cases m with
    | zero =>
      obtain rfl := Option.some.inj hx
      rw [List.set_cons_zero, List.mapM_cons, List.mapM_cons, hy, mapM_congr_ok hxs]
    | succ m =>
      rw [List.set_cons_succ, List.mapM_cons, List.mapM_cons, hz, ih hxs hx]

/-- Two pipelines with the same procedures that run the same way. -/
structure Pipeline.Alike (p q : Pipeline) : Prop where
  names : q.procedures.names = p.procedures.names
  procedures : ∀ name x y, p.procedures.get? name = some x → q.procedures.get? name = some y →
    y.attributes = x.attributes ∧
      ∃ tree, p.tree x.blockIndex = .ok tree ∧ q.tree y.blockIndex = .ok tree
  default : ∃ tree, p.tree Pipeline.defaultIndex = .ok tree ∧
    q.tree Pipeline.defaultIndex = .ok tree

namespace Pipeline

variable {p : Pipeline}

/-- A rank that falls along every reference between blocks, and stays below the depth to which
references are followed. -/
structure Ranked (p : Pipeline) (rank : Nat → Nat) : Prop where
  falls : ∀ i b, p.blocks[i]? = some b → ∀ j ∈ b.references,
    j < p.blocks.size ∧ rank j < rank i
  bounded : ∀ i < p.blocks.size, rank i < p.depthBound

theorem exists_itemOutlineWith {f : Nat → Except Misuse Outline} {x : Item}
    (h : ∀ i, x.blockIndex? = some i → ∃ o, f i = .ok o) : ∃ o, itemOutlineWith f x = .ok o := by
  unfold itemOutlineWith
  unfold Item.blockIndex? at h
  split
  · exact ⟨_, rfl⟩
  · exact ⟨_, rfl⟩
  · next i haction =>
    rw [haction] at h
    exact h i rfl

theorem itemOutlineWith_congr {f g : Nat → Except Misuse Outline} {x : Item}
    (h : ∀ i, x.blockIndex? = some i → f i = g i) :
    itemOutlineWith f x = itemOutlineWith g x := by
  unfold itemOutlineWith
  unfold Item.blockIndex? at h
  split
  · rfl
  · rfl
  · next i haction =>
    rw [haction] at h
    exact h i rfl

theorem block_of_getElem? {i : Nat} {b : Block} (h : p.blocks[i]? = some b) :
    p.block i = .ok b := by
  unfold block
  rw [h]

theorem defaultBlock_of_getElem? {b : Block} (h : p.blocks[defaultIndex]? = some b) :
    p.defaultBlock = .ok b :=
  block_of_getElem? h

theorem exists_block {i : Nat} (h : i < p.blocks.size) :
    ∃ b, p.block i = .ok b ∧ p.blocks[i]? = some b :=
  have hb := Array.getElem?_eq_getElem h
  ⟨p.blocks[i], block_of_getElem? hb, hb⟩

/-- The outline of a block is the group of the outlines of its items, one level below. -/
theorem outlineWithin_succ {i : Nat} {b : Block} (hb : p.blocks[i]? = some b) (n : Nat) :
    p.outlineWithin (n + 1) i =
      (b.items.mapM (itemOutlineWith (p.outlineWithin n))).map (.group b.parallel) := by
  unfold outlineWithin block
  rw [hb]
  show (b.items.mapM (itemOutlineWith (p.outlineWithin n))).bind _ = _
  cases b.items.mapM (itemOutlineWith (p.outlineWithin n)) <;> rfl

theorem outlineWithin_ok {n i : Nat} {o : Outline} (h : p.outlineWithin (n + 1) i = .ok o) :
    ∃ b members, p.blocks[i]? = some b ∧
      b.items.mapM (itemOutlineWith (p.outlineWithin n)) = .ok members ∧
      o = .group b.parallel members := by
  cases hb : p.blocks[i]? with
  | none =>
    unfold outlineWithin block at h
    rw [hb] at h
    cases h
  | some b =>
    rw [outlineWithin_succ hb] at h
    cases hm : b.items.mapM (itemOutlineWith (p.outlineWithin n)) with
    | error e =>
      rw [hm] at h
      cases h
    | ok members =>
      rw [hm] at h
      exact ⟨b, members, rfl, hm, (Except.ok.inj h).symm⟩

/-- A block has an outline within every depth above its rank. -/
theorem Ranked.exists_outlineWithin {rank : Nat → Nat} (h : p.Ranked rank) {n i : Nat}
    (hi : i < p.blocks.size) (hn : rank i < n) : ∃ o, p.outlineWithin n i = .ok o := by
  induction n generalizing i with
  | zero => omega
  | succ n ih =>
    obtain ⟨b, -, hget⟩ := exists_block hi
    have hitems : ∀ x ∈ b.items, ∃ o, itemOutlineWith (p.outlineWithin n) x = .ok o := by
      intro x hx
      apply exists_itemOutlineWith
      intro j hj
      obtain ⟨hlt, hrank⟩ := h.falls i b hget j (List.mem_filterMap.2 ⟨x, hx, hj⟩)
      exact ih hlt (by omega)
    obtain ⟨members, hmembers⟩ := exists_mapM_ok hitems
    refine ⟨.group b.parallel members, ?_⟩
    rw [outlineWithin_succ hget, hmembers]
    rfl

theorem Ranked.exists_outline {rank : Nat → Nat} (h : p.Ranked rank) {i : Nat}
    (hi : i < p.blocks.size) : ∃ o, p.outline i = .ok o :=
  h.exists_outlineWithin hi (h.bounded i hi)

/-- Above its rank a block has the same outline within every depth. -/
theorem Ranked.outlineWithin_eq {rank : Nat → Nat} (h : p.Ranked rank) {n m i : Nat}
    (hn : rank i < n) (hm : rank i < m) : p.outlineWithin n i = p.outlineWithin m i := by
  induction n generalizing m i with
  | zero => omega
  | succ n ih =>
    obtain ⟨m, rfl⟩ : ∃ k, m = k + 1 := ⟨m - 1, by omega⟩
    cases hget : p.blocks[i]? with
    | none =>
      unfold outlineWithin block
      rw [hget]
      rfl
    | some b =>
      have hitems : b.items.mapM (itemOutlineWith (p.outlineWithin n)) =
          b.items.mapM (itemOutlineWith (p.outlineWithin m)) := by
        apply mapM_congr_ok
        intro x hx
        apply itemOutlineWith_congr
        intro j hj
        have hfalls := (h.falls i b hget j (List.mem_filterMap.2 ⟨x, hx, hj⟩)).2
        exact ih (by omega) (by omega)
      rw [outlineWithin_succ hget, outlineWithin_succ hget, hitems]

/-- The outline of a block is made of the outlines of its items. -/
theorem Ranked.outline_eq {rank : Nat → Nat} (h : p.Ranked rank) {i : Nat} {b : Block}
    (hget : p.blocks[i]? = some b) :
    p.outline i = (b.items.mapM p.itemOutline).map (.group b.parallel) := by
  have hi := (Array.getElem?_eq_some_iff.1 hget).1
  have hitems : b.items.mapM (itemOutlineWith (p.outlineWithin p.blocks.size)) =
      b.items.mapM p.itemOutline := by
    apply mapM_congr_ok
    intro x hx
    apply itemOutlineWith_congr
    intro j hj
    obtain ⟨hlt, hfalls⟩ := h.falls i b hget j (List.mem_filterMap.2 ⟨x, hx, hj⟩)
    have hbound := h.bounded i hi
    unfold depthBound at hbound
    exact h.outlineWithin_eq (by omega) (h.bounded j hlt)
  unfold outline depthBound
  rw [outlineWithin_succ hget, hitems]

theorem tree_of_outline {i : Nat} {o : Outline} (h : p.outline i = .ok o) :
    p.tree i = .ok o.simplify := by
  unfold tree
  rw [h]
  rfl

theorem Ranked.exists_tree {rank : Nat → Nat} (h : p.Ranked rank) {i : Nat}
    (hi : i < p.blocks.size) : ∃ o, p.tree i = .ok o := by
  obtain ⟨o, ho⟩ := h.exists_outline hi
  exact ⟨o.simplify, tree_of_outline ho⟩

/-! ## References that end -/

/-- The block at one index holds a reference to the block at another. -/
def Refers (p : Pipeline) (i j : Nat) : Prop :=
  ∃ b, p.blocks[i]? = some b ∧ j ∈ b.references

open Classical in
/-- The number of blocks that are reached from a block. -/
noncomputable def reach (p : Pipeline) (i : Nat) : Nat :=
  ((Finset.range p.blocks.size).filter (Relation.TransGen p.Refers i)).card

/-- Without a cycle fewer blocks are reached along every reference. -/
theorem ranked_reach (hrange : ∀ i j, p.Refers i j → j < p.blocks.size)
    (hacyclic : ∀ i, ¬Relation.TransGen p.Refers i i) : p.Ranked p.reach := by
  classical
  constructor
  · intro i b hb j hj
    have hstep : p.Refers i j := ⟨b, hb, hj⟩
    have hlt := hrange i j hstep
    refine ⟨hlt, Finset.card_lt_card ?_⟩
    rw [Finset.ssubset_iff_of_subset]
    · refine ⟨j, ?_, ?_⟩
      · exact Finset.mem_filter.2 ⟨Finset.mem_range.2 hlt, .single hstep⟩
      · intro hmem
        exact hacyclic j (Finset.mem_filter.1 hmem).2
    · intro k hk
      obtain ⟨hk, hjk⟩ := Finset.mem_filter.1 hk
      exact Finset.mem_filter.2 ⟨hk, .head hstep hjk⟩
  · intro i _
    unfold depthBound reach
    have hcard := Finset.card_filter_le (Finset.range p.blocks.size) (Relation.TransGen p.Refers i)
    rw [Finset.card_range] at hcard
    omega

/-- References that lead down in some rank have no cycle. -/
theorem acyclic_of_rank (rank : Nat → Nat)
    (h : ∀ (i : Nat) (hi : i < p.blocks.size), ∀ j ∈ p.blocks[i].references, rank j < rank i)
    (i : Nat) : ¬Relation.TransGen p.Refers i i := by
  have hstep : ∀ i j, p.Refers i j → rank j < rank i := by
    rintro i j ⟨b, hb, hj⟩
    obtain ⟨hi, rfl⟩ := Array.getElem?_eq_some_iff.1 hb
    exact h i hi j hj
  have hfalls : ∀ j, Relation.TransGen p.Refers i j → rank j < rank i := by
    intro j hj
    induction hj with
    | single hij => exact hstep _ _ hij
    | tail _ hjk ih => exact Nat.lt_trans (hstep _ _ hjk) ih
  exact fun hi => Nat.lt_irrefl _ (hfalls i hi)

/-- Any rank that falls along references will do: the blocks that are reached are a bounded one. -/
theorem exists_ranked (rank : Nat → Nat) (h : ∀ i b, p.blocks[i]? = some b → ∀ j ∈ b.references,
    j < p.blocks.size ∧ rank j < rank i) : ∃ r, p.Ranked r := by
  refine ⟨_, ranked_reach ?_ (acyclic_of_rank rank ?_)⟩
  · rintro i j ⟨b, hb, hj⟩
    exact (h i b hb j hj).1
  · intro i hi j hj
    exact (h i _ (Array.getElem?_eq_getElem hi) j hj).2

/-- What holds for a block when it holds for the blocks it refers to holds for all blocks. -/
theorem Ranked.induction {rank : Nat → Nat} (h : p.Ranked rank) {motive : Nat → Prop}
    (hstep : ∀ i b, p.blocks[i]? = some b → (∀ j ∈ b.references, motive j) → motive i) {i : Nat}
    (hi : i < p.blocks.size) : motive i := by
  obtain ⟨b, -, hget⟩ := exists_block hi
  apply hstep i b hget
  intro j hj
  obtain ⟨hlt, hfalls⟩ := h.falls i b hget j hj
  exact h.induction hstep hlt
termination_by rank i

/-! ## Rows -/

section DefaultRows

variable {encode : Shell.Encoder} {parallel : Bool} {x y : Item} {xs : List Item}

theorem defaultRows_of_nil (h : p.defaultBlock = .ok ⟨[], parallel⟩) :
    p.defaultRows encode = .ok [] := by
  unfold defaultRows
  rw [h]
  rfl

theorem defaultRows_of_singleton (h : p.defaultBlock = .ok ⟨[x], parallel⟩) :
    p.defaultRows encode = (p.itemOutline x).map (·.rows encode "") := by
  unfold defaultRows
  rw [h]
  rfl

theorem defaultRows_of_more (h : p.defaultBlock = .ok ⟨x :: y :: xs, parallel⟩) :
    p.defaultRows encode = (p.outline defaultIndex).map (·.rows encode "") := by
  unfold defaultRows
  rw [h]
  rfl

end DefaultRows

theorem Ranked.exists_render {rank : Nat → Nat} (h : p.Ranked rank) (hsize : 0 < p.blocks.size)
    (hroots : ∀ x ∈ p.procedures.values, x.blockIndex < p.blocks.size) (encode : Shell.Encoder) :
    ∃ text, p.render encode = .ok text := by
  have hrows : ∀ x ∈ p.procedures.values, ∃ rows, p.procedureRows encode x = .ok rows := by
    intro x hx
    obtain ⟨o, ho⟩ := h.exists_outline (hroots x hx)
    unfold procedureRows
    rw [ho]
    exact ⟨_, rfl⟩
  have hdefault : ∃ rows, p.defaultRows encode = .ok rows := by
    obtain ⟨⟨items, parallel⟩, hb, hget⟩ := exists_block hsize
    match items, hb, hget with
    | [], hb, _ => exact ⟨[], defaultRows_of_nil hb⟩
    | [x], hb, hget =>
      have hitem : ∃ o, p.itemOutline x = .ok o := by
        apply exists_itemOutlineWith
        intro j hj
        apply h.exists_outline
        refine (h.falls 0 _ hget j ?_).1
        exact List.mem_filterMap.2 ⟨x, List.mem_singleton_self x, hj⟩
      obtain ⟨o, ho⟩ := hitem
      rw [defaultRows_of_singleton hb, ho]
      exact ⟨_, rfl⟩
    | x :: y :: xs, hb, _ =>
      obtain ⟨o, ho⟩ : ∃ o, p.outline defaultIndex = .ok o := h.exists_outline hsize
      rw [defaultRows_of_more hb, ho]
      exact ⟨_, rfl⟩
  obtain ⟨procedures, hprocedures⟩ := exists_mapM_ok hrows
  obtain ⟨last, hlast⟩ := hdefault
  unfold render rows
  rw [hprocedures, hlast]
  exact ⟨_, rfl⟩

theorem mem_references_of_mem {i : Nat} {b : Block} (hb : p.blocks[i]? = some b) {j : Nat}
    (hj : j ∈ b.references) : j ∈ p.references := by
  have hb' : b ∈ p.blocks.toList := Array.mem_toList_iff.2 (Array.mem_of_getElem? hb)
  exact List.mem_append_left _ (List.mem_flatMap.2 ⟨b, hb', hj⟩)

/-- In a forest the index is a rank, and the default block stands above all others. -/
theorem IsForest.ranked (h : p.IsForest) :
    p.Ranked fun i => if i = defaultIndex then p.blocks.size else i := by
  constructor
  · intro i b hb j hj
    have hlt := h.inRange j (mem_references_of_mem hb hj)
    have hpos : j ≠ defaultIndex := by
      rintro rfl
      exact h.free (mem_references_of_mem hb hj)
    refine ⟨hlt, ?_⟩
    simp only [if_neg hpos]
    split
    · exact hlt
    · next hi => exact (h.below i b (Nat.one_le_iff_ne_zero.2 hi) hb j hj).2
  · intro i hi
    unfold depthBound
    split <;> omega

/-- A pipeline in which every block that is asked for stands in the table. -/
structure Usable (p : Pipeline) : Prop where
  /-- There is a default block. -/
  default : ∃ b, p.defaultBlock = .ok b
  /-- Every procedure has a body. -/
  bodies : ∀ x ∈ p.procedures.values, ∃ b, p.block x.blockIndex = .ok b
  /-- Every reference in a block leads to a block. -/
  references : ∀ b ∈ p.blocks, ∀ j ∈ b.references, ∃ b', p.block j = .ok b'
  /-- Every block has a tree. -/
  trees : ∀ i < p.blocks.size, ∃ tree, p.tree i = .ok tree
  /-- The pipeline can be written. -/
  written : ∀ encode, ∃ text, p.render encode = .ok text

theorem IsForest.usable (h : p.IsForest) : p.Usable := by
  have hblock : ∀ j ∈ p.references, ∃ b, p.block j = .ok b := by
    intro j hj
    obtain ⟨b, hb, -⟩ := exists_block (h.inRange j hj)
    exact ⟨b, hb⟩
  have hbodies : ∀ x ∈ p.procedures.values, x.blockIndex ∈ p.references := fun x hx =>
    List.mem_append_right _ (List.mem_map_of_mem hx)
  constructor
  · obtain ⟨b, hb, -⟩ := exists_block h.nonempty
    exact ⟨b, hb⟩
  · exact fun x hx => hblock _ (hbodies x hx)
  · intro b hb j hj
    obtain ⟨i, hi⟩ := Array.mem_iff_getElem?.1 hb
    exact hblock j (mem_references_of_mem hi hj)
  · exact fun i hi => h.ranked.exists_tree hi
  · exact h.ranked.exists_render h.nonempty fun x hx => h.inRange _ (hbodies x hx)

end Pipeline

end Runbook
