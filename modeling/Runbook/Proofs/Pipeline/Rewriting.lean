import Mathlib.Algebra.GroupWithZero.Nat
import Runbook.Proofs.Pipeline.Embedding

/-!
# Promotion as a rewriting of items

Promotion puts a call in the place of just the commands that stand for one. A promotion without an
error therefore leaves everything else as it is, counts what it changes, and finds nothing to do when
it is made again (`rewrites_of_promoteCount`).
-/

namespace Runbook

/-! ## What becomes of an item -/

namespace Item

variable {known : String → Bool} {x y : Item}

theorem Becomes.ne (h : x.Becomes known y) : y ≠ x := by
  obtain ⟨line, head, words, args, haction, -, -, -, rfl⟩ := h
  rintro rfl
  cases haction

/-- An item without a repeated option is the command of a call, or stays as it is. -/
theorem promoted_cases (h : x.Settled known) :
    x.Becomes known (x.promoted known) ∨ x.promoted known = x ∧ x.promote known = .ok none := by
  obtain ⟨y, hy⟩ := h
  unfold promoted
  rw [hy]
  cases y with
  | none => exact .inr ⟨rfl, rfl⟩
  | some y => exact .inl (promote_eq_some_iff.1 hy)

/-- What a promotion makes is not promoted once more. -/
theorem promote_promoted (h : x.Settled known) :
    (x.promoted known).promote known = .ok none := by
  rcases promoted_cases h with ⟨line, head, words, args, -, -, -, -, hcall⟩ | ⟨hsame, hnone⟩
  · rw [hcall]
    rfl
  · rw [hsame, hnone]

end Item

/-! ## What a promotion changes -/

/-- At how many places two blocks have different items. -/
def Block.changes (b b' : Block) : Nat :=
  (b.items.zip b'.items).countP fun e => e.1 ≠ e.2

/-- The block has the shape of another one, and its items are those or what they become. -/
structure Block.Rewrites (known : String → Bool) (b b' : Block) : Prop where
  parallel : b'.parallel = b.parallel
  length : b'.items.length = b.items.length
  items : ∀ (j : Nat) (x y : Item), b.items[j]? = some x → b'.items[j]? = some y →
    y = x ∨ x.Becomes known y

section Sweeps

variable {known : String → Bool}

theorem Block.changes_self (b : Block) : b.changes b = 0 := by
  unfold changes List.zip
  rw [List.zipWith_self, List.countP_eq_zero]
  intro e he
  obtain ⟨x, -, rfl⟩ := List.mem_map.1 he
  simp

theorem Block.Settled.promote_eq {b : Block} (h : b.Settled known) :
    ∀ x ∈ (b.promoted known).items, x.promote known = .ok none := by
  intro y hy
  obtain ⟨x, hx, rfl⟩ := List.mem_map.1 hy
  exact Item.promote_promoted (h x hx)

theorem Block.Settled.rewrites {b : Block} (h : b.Settled known) :
    b.Rewrites known (b.promoted known) := by
  refine ⟨rfl, by simp [promoted], fun j x y hx hy => ?_⟩
  obtain rfl : x.promoted known = y := by
    simpa [promoted, hx] using hy
  rcases Item.promoted_cases (h x (List.mem_of_getElem? hx)) with hcall | ⟨hsame, -⟩
  · exact .inr hcall
  · exact .inl hsame

/-- The labels of the items that change are noted, one for each. -/
theorem length_labels_promoteItems {xs : List Item} (h : ∀ x ∈ xs, x.Settled known) :
    (promoteItems known xs).labels.length =
      (xs.zip (xs.map (Item.promoted known))).countP fun e => e.1 ≠ e.2 := by
  induction xs with
  | nil => rfl
  | cons x xs ih =>
    obtain ⟨⟨y, hy⟩, hxs⟩ := List.forall_mem_cons.1 h
    rw [promoteItems, hy, List.map_cons, List.zip_cons_cons, List.countP_cons, ← ih hxs]
    have hpromoted : x.promoted known = y.getD x := by
      unfold Item.promoted
      rw [hy]
      cases y <;> rfl
    cases y with
    | none => simp [hpromoted]
    | some y =>
      have hne : x ≠ y := (Item.promote_eq_some_iff.1 hy).ne.symm
      simp [hpromoted, hne]

theorem length_labels_promoteBlocks {bs : List Block} (h : ∀ b ∈ bs, b.Settled known) :
    (promoteBlocks known bs).labels.length =
      ((bs.zip (bs.map (Block.promoted known))).map fun e => e.1.changes e.2).sum := by
  induction bs with
  | nil => rfl
  | cons b bs ih =>
    obtain ⟨hb, hbs⟩ := List.forall_mem_cons.1 h
    obtain ⟨-, hnone⟩ := promoteItems_of_settled hb
    rw [promoteBlocks, List.map_cons, List.zip_cons_cons, List.map_cons, List.sum_cons, ← ih hbs]
    simp only [hnone, List.length_append, length_labels_promoteItems hb]
    rfl

end Sweeps

namespace Pipeline

variable {p q : Pipeline}

/-- At how many places two pipelines have different items. -/
def changes (p q : Pipeline) : Nat :=
  ((p.blocks.toList.zip q.blocks.toList).map fun e => e.1.changes e.2).sum

/-- The pipeline has the shape, the procedures and the declarations of another one, and its items
are those or what they become. -/
structure Rewrites (p q : Pipeline) : Prop where
  procedures : q.procedures = p.procedures
  declarations : q.declarations = p.declarations
  size : q.blocks.size = p.blocks.size
  blocks : ∀ (i : Nat) (b b' : Block), p.blocks[i]? = some b → q.blocks[i]? = some b' →
    b.Rewrites p.procedures.contains b'

theorem Settled.rewrites (h : p.Settled p.procedures.contains) :
    p.Rewrites (p.promoted p.procedures.contains) := by
  refine ⟨rfl, rfl, by simp [promoted], fun i b b' hb hb' => ?_⟩
  obtain rfl : b.promoted p.procedures.contains = b' := by
    simpa [promoted, hb] using hb'
  exact (h b (Array.mem_of_getElem? hb)).rewrites

theorem promoteCount_of_settled (h : p.Settled p.procedures.contains) :
    ∃ records, p.promoteCount = (p.promoted p.procedures.contains,
        ⟨records, .ok (p.changes (p.promoted p.procedures.contains))⟩) ∧
      records.length = p.changes (p.promoted p.procedures.contains) := by
  have hblocks : ∀ b ∈ p.blocks.toList, b.Settled p.procedures.contains :=
    fun b hb => h b (Array.mem_toList_iff.1 hb)
  obtain ⟨hvalue, hnone⟩ := promote_of_settled h
  have hcount : p.promote.labels.length = p.changes (p.promoted p.procedures.contains) := by
    show (promoteBlocks p.procedures.contains p.blocks.toList).labels.length = _
    rw [length_labels_promoteBlocks hblocks]
    simp [changes, promoted]
  refine ⟨promotionRecords p.promote.labels, ?_, ?_⟩
  · unfold promoteCount
    simp only [hvalue, hnone, hcount]
    rfl
  · unfold promotionRecords
    rw [List.length_map]
    exact hcount

theorem settled_of_promoteCount {n : Nat} (h : p.promoteCount.2.result = .ok n) :
    p.Settled p.procedures.contains := by
  apply settled_of_promote
  cases herror : p.promote.error with
  | none => rfl
  | some e =>
    unfold promoteCount at h
    simp [herror] at h

theorem changes_self (p : Pipeline) : p.changes p = 0 := by
  unfold changes List.zip
  simp [List.zipWith_self, Function.comp_def, Block.changes_self]

/-- A pipeline in which no command stands for a call is promoted to itself. -/
theorem promoteCount_of_forall
    (h : ∀ b ∈ p.blocks, ∀ x ∈ b.items, x.promote p.procedures.contains = .ok none) :
    p.promoteCount = (p, ⟨[], .ok 0⟩) := by
  have hsettled : p.Settled p.procedures.contains := fun b hb x hx => ⟨none, h b hb x hx⟩
  have hitem : ∀ b ∈ p.blocks, ∀ x ∈ b.items, x.promoted p.procedures.contains = x := by
    intro b hb x hx
    unfold Item.promoted
    rw [h b hb x hx]
  have hblock : ∀ b ∈ p.blocks, b.promoted p.procedures.contains = b := by
    intro b hb
    unfold Block.promoted
    rw [List.map_congr_left (hitem b hb), List.map_id']
  have hsame : p.promoted p.procedures.contains = p := by
    unfold promoted
    rw [Array.map_congr_left hblock, Array.map_id']
  obtain ⟨records, hcount, hrecords⟩ := promoteCount_of_settled hsettled
  rw [hsame, changes_self] at hcount hrecords
  rw [hcount, List.length_eq_zero_iff.1 hrecords]

/-- **Promotion.** A promotion that succeeds changes items alone: commands that stand for a call
become this call, as many as it counts. No such command is left, so when the promotion is made again
it changes nothing and counts none. -/
theorem rewrites_of_promoteCount {records : List LogRecord} {n : Nat}
    (h : p.promoteCount = (q, ⟨records, .ok n⟩)) :
    p.Rewrites q ∧ p.changes q = n ∧
      (∀ b ∈ q.blocks, ∀ x ∈ b.items, ∀ y, ¬x.Becomes q.procedures.contains y) ∧
      q.promoteCount = (q, ⟨[], .ok 0⟩) := by
  have hsettled : p.Settled p.procedures.contains := settled_of_promoteCount (n := n) (by rw [h])
  obtain ⟨records', hcount, -⟩ := promoteCount_of_settled hsettled
  obtain ⟨rfl, hlogged⟩ := Prod.mk.inj (h.symm.trans hcount)
  obtain ⟨-, hresult⟩ := Logged.mk.inj hlogged
  have hnone : ∀ b ∈ (p.promoted p.procedures.contains).blocks, ∀ x ∈ b.items,
      x.promote p.procedures.contains = .ok none := by
    intro b hb
    obtain ⟨b', hb', rfl⟩ := Array.mem_map.1 hb
    exact (hsettled b' hb').promote_eq
  refine ⟨hsettled.rewrites, (Except.ok.inj hresult).symm, fun b hb x hx y hy => ?_,
    promoteCount_of_forall hnone⟩
  cases (hnone b hb x hx).symm.trans (Item.promote_eq_some_iff.2 hy)

/-- A pipeline built by hand: calls in two blocks, a command with a word that is no option, and one
of no procedure. -/
def callingPipeline : Pipeline where
  blocks := #[⟨[.ofLine "build target=release msg='a b'", .block 1], true⟩,
    ⟨[.ofLine "build fast", .ofLine "build", .ofLine "make target=release"], false⟩]
  procedures := .ofList [("build", ⟨"build", 1, []⟩)]
  declarations := .empty

/-- The pipeline with its two calls. -/
def calledPipeline : Pipeline where
  blocks := #[⟨[.call "build" ⟨[("target", "release"), ("msg", "a b")]⟩, .block 1], true⟩,
    ⟨[.ofLine "build fast", .call "build" .empty, .ofLine "make target=release"], false⟩]
  procedures := .ofList [("build", ⟨"build", 1, []⟩)]
  declarations := .empty

theorem rewrites_of_promoteCount_callingPipeline :
    callingPipeline.promoteCount =
        (calledPipeline, ⟨promotionRecords ["build", "build"], .ok 2⟩) ∧
      callingPipeline.Rewrites calledPipeline ∧ callingPipeline.changes calledPipeline = 2 ∧
      (∀ b ∈ calledPipeline.blocks, ∀ x ∈ b.items, ∀ y,
        ¬x.Becomes calledPipeline.procedures.contains y) ∧
      calledPipeline.promoteCount = (calledPipeline, ⟨[], .ok 0⟩) := by
  have hvalue : callingPipeline.promoteCount.1 = calledPipeline := by decide +kernel
  have hrecords : callingPipeline.promoteCount.2.records =
      promotionRecords ["build", "build"] := by
    decide +kernel
  have hresult : callingPipeline.promoteCount.2.result = .ok 2 := by decide +kernel
  have hcount : callingPipeline.promoteCount =
      (calledPipeline, ⟨promotionRecords ["build", "build"], .ok 2⟩) := by
    rw [← hvalue, ← hrecords, ← hresult]
  exact ⟨hcount, rewrites_of_promoteCount hcount⟩

end Pipeline

end Runbook
