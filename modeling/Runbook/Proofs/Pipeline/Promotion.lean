import Runbook.Proofs.Pipeline.Call

/-!
# What a promotion makes

Promotion works on each item alone. A check succeeds exactly when no item gives an option twice, and
then every item of the pipeline is the promoted one (`check_of_settled`, `settled_of_check`). What
it puts in the place of a command is a well-formed call of a known procedure.
-/

namespace Runbook

/-! ## Promotion item by item -/

def Item.promoted (known : String → Bool) (x : Item) : Item :=
  match x.promote known with
  | .ok (some y) => y
  | _ => x

/-- Promotion finds no option twice in the item. -/
def Item.Settled (known : String → Bool) (x : Item) : Prop :=
  ∃ y, x.promote known = .ok y

def Block.promoted (known : String → Bool) (b : Block) : Block :=
  { b with items := b.items.map (Item.promoted known) }

def Block.Settled (known : String → Bool) (b : Block) : Prop :=
  ∀ x ∈ b.items, x.Settled known

section Promotion

variable {known : String → Bool}

theorem promoteItems_of_settled {xs : List Item} (h : ∀ x ∈ xs, x.Settled known) :
    (promoteItems known xs).value = xs.map (Item.promoted known) ∧
      (promoteItems known xs).error = none := by
  induction xs with
  | nil => exact ⟨rfl, rfl⟩
  | cons x xs ih =>
    obtain ⟨⟨y, hy⟩, hxs⟩ := List.forall_mem_cons.1 h
    obtain ⟨hvalue, herror⟩ := ih hxs
    rw [promoteItems, List.map_cons, Item.promoted, hy]
    cases y with
    | none => exact ⟨congrArg (x :: ·) hvalue, herror⟩
    | some call => exact ⟨congrArg (call :: ·) hvalue, herror⟩

theorem promoteBlocks_of_settled {bs : List Block} (h : ∀ b ∈ bs, b.Settled known) :
    (promoteBlocks known bs).value = bs.map (Block.promoted known) ∧
      (promoteBlocks known bs).error = none := by
  induction bs with
  | nil => exact ⟨rfl, rfl⟩
  | cons b bs ih =>
    obtain ⟨hb, hbs⟩ := List.forall_mem_cons.1 h
    obtain ⟨hvalue, herror⟩ := ih hbs
    obtain ⟨hitems, hnone⟩ := promoteItems_of_settled hb
    rw [promoteBlocks, List.map_cons, Block.promoted]
    simp only [hnone, hitems, hvalue, herror, and_self]

theorem Pipeline.promote_of_settled {p : Pipeline}
    (h : ∀ b ∈ p.blocks, b.Settled p.procedures.contains) :
    p.promote.value = { p with blocks := p.blocks.map (Block.promoted p.procedures.contains) } ∧
      p.promote.error = none := by
  obtain ⟨hvalue, herror⟩ := promoteBlocks_of_settled
    (fun b hb => h b (Array.mem_toList_iff.1 hb) : ∀ b ∈ p.blocks.toList, _)
  refine ⟨?_, herror⟩
  show ({ p with blocks := (promoteBlocks _ p.blocks.toList).value.toArray } : Pipeline) = _
  rw [hvalue, ← Array.toList_map, Array.toArray_toList]

/-- The check of a pipeline without a repeated option promotes every item and succeeds. -/
theorem Pipeline.check_of_settled {p : Pipeline}
    (h : ∀ b ∈ p.blocks, b.Settled p.procedures.contains) :
    p.check.1 = { p with blocks := p.blocks.map (Block.promoted p.procedures.contains) } ∧
      p.check.2.result = .ok ⟨⟩ := by
  obtain ⟨hvalue, herror⟩ := promote_of_settled h
  refine ⟨hvalue, ?_⟩
  unfold check promoteCount
  simp [herror, Except.bind]

theorem promoted_block {x : Item} {i : Nat} (h : x.action = .block i) : x.promoted known = x := by
  unfold Item.promoted Item.promote
  rw [h]

theorem settled_of_promoteItems {xs : List Item}
    (h : (promoteItems known xs).error = none) : ∀ x ∈ xs, x.Settled known := by
  induction xs with
  | nil => simp
  | cons x xs ih =>
    unfold promoteItems at h
    split at h
    · cases h
    · next hx => exact List.forall_mem_cons.2 ⟨⟨_, hx⟩, ih h⟩
    · next y hx => exact List.forall_mem_cons.2 ⟨⟨_, hx⟩, ih h⟩

theorem settled_of_promoteBlocks {bs : List Block}
    (h : (promoteBlocks known bs).error = none) : ∀ b ∈ bs, b.Settled known := by
  induction bs with
  | nil => simp
  | cons b bs ih =>
    unfold promoteBlocks at h
    dsimp only at h
    split at h
    · cases h
    · next hb => exact List.forall_mem_cons.2 ⟨settled_of_promoteItems hb, ih h⟩

theorem Pipeline.settled_of_promote {p : Pipeline} (h : p.promote.error = none) :
    ∀ b ∈ p.blocks, b.Settled p.procedures.contains :=
  fun b hb => settled_of_promoteBlocks h b (Array.mem_toList_iff.2 hb)

theorem Pipeline.settled_of_check {p : Pipeline} (h : p.check.2.result = .ok ⟨⟩) :
    ∀ b ∈ p.blocks, b.Settled p.procedures.contains := by
  apply settled_of_promote
  cases herror : p.promote.error with
  | none => rfl
  | some e =>
    unfold check promoteCount at h
    simp [herror, Except.bind] at h

end Promotion

/-! ## Calls from promotion -/

/-- What a promotion makes is a well-formed call of a known procedure. -/
theorem exists_call_of_promote {known : String → Bool} {x y : Item}
    (h : x.promote known = .ok (some y)) :
    ∃ name args, y = .call name args ∧ known name = true ∧ args.WellNamed := by
  obtain ⟨-, head, words, args, -, hknown, hwords, hdistinct, rfl⟩ := Item.promote_eq_some_iff.1 h
  exact ⟨head, args, rfl, hknown, isOptionName_of_forall₂ hwords, hdistinct⟩

end Runbook
