import Mathlib.Tactic.ByContra
import Mathlib.Tactic.SplitIfs
import Runbook.Pipeline.Command
import Runbook.Pipeline.Promotion

/-!
# Who refers to a block

A reference is an item that stands for a block, or a procedure that has a block for its body. In a
forest every block but the default one is referred to exactly once, and by blocks below it never.
While a document is read some references are held outside the table, by the open blocks and by the
default block in the making; `Table.Owned` is the rule for a table with such references.
-/

namespace Runbook

/-! ## References -/

/-- The indexes that items refer to. -/
def referencesOf (xs : List Item) : List Nat :=
  xs.filterMap Item.blockIndex?

/-- The indexes that the items of a block refer to. -/
def Block.references (b : Block) : List Nat :=
  referencesOf b.items

/-- The indexes that the blocks of a table refer to. -/
def Table.references (t : Table) : List Nat :=
  t.toList.flatMap Block.references

/-- All references of a pipeline: those of its blocks, then those of its procedures. -/
def Pipeline.references (p : Pipeline) : List Nat :=
  Table.references p.blocks ++ p.procedures.values.map Procedure.blockIndex

/-- The default block is free, every other block has exactly one reference, every reference is in
range, and the blocks refer to blocks before them only, the default block apart. -/
structure Pipeline.IsForest (p : Pipeline) : Prop where
  nonempty : 0 < p.blocks.size
  free : Pipeline.defaultIndex ∉ p.references
  inRange : ∀ j ∈ p.references, j < p.blocks.size
  once : ∀ j, 1 ≤ j → j < p.blocks.size → p.references.count j = 1
  below : ∀ i b, 1 ≤ i → p.blocks[i]? = some b → ∀ j ∈ b.references, 1 ≤ j ∧ j < i

@[simp] theorem referencesOf_nil : referencesOf [] = [] := rfl

@[simp] theorem referencesOf_append (xs ys : List Item) :
    referencesOf (xs ++ ys) = referencesOf xs ++ referencesOf ys :=
  List.filterMap_append

@[simp] theorem referencesOf_reverse (xs : List Item) :
    referencesOf xs.reverse = (referencesOf xs).reverse :=
  List.filterMap_reverse

@[simp] theorem referencesOf_block (i : Nat) (xs : List Item) :
    referencesOf (.block i :: xs) = i :: referencesOf xs := rfl

theorem referencesOf_eq_nil {xs : List Item} (h : ∀ x ∈ xs, x.blockIndex? = none) :
    referencesOf xs = [] :=
  List.filterMap_eq_nil_iff.2 h

@[simp] theorem blockIndex?_shell (line head : String) (args : List String) :
    (Item.shell line head args).blockIndex? = none := rfl

theorem exists_action_ofStatements (line : String) (statements : List Shell.Statement) :
    ∃ head words, (Item.ofStatements line statements).action = .shell line head words := by
  unfold Item.ofStatements
  split
  · exact ⟨_, _, rfl⟩
  · exact ⟨_, _, rfl⟩

@[simp] theorem blockIndex?_ofStatements (line : String) (statements : List Shell.Statement) :
    (Item.ofStatements line statements).blockIndex? = none := by
  obtain ⟨head, words, haction⟩ := exists_action_ofStatements line statements
  unfold Item.blockIndex?
  rw [haction]

/-- An item of a table in which one block got more items is one of these or an old one. -/
theorem Table.mem_items_modify {t : Table} {i : Nat} {xs : List Item} {b : Block}
    (hb : b ∈ t.modify i (·.append xs)) {x : Item} (hx : x ∈ b.items) :
    x ∈ xs ∨ ∃ b' ∈ t, x ∈ b'.items := by
  obtain ⟨j, hj, rfl⟩ := Array.mem_iff_getElem.1 hb
  rw [Array.size_modify] at hj
  rw [Array.getElem_modify] at hx
  split at hx
  · rcases List.mem_append.1 hx with hx | hx
    · exact .inr ⟨_, Array.getElem_mem hj, hx⟩
    · exact .inl hx
  · exact .inr ⟨_, Array.getElem_mem hj, hx⟩

theorem Table.getElem?_push_of_some {t : Table} {i : Nat} {b : Block} (h : t[i]? = some b)
    (c : Block) : (t.push c)[i]? = some b := by
  have hi := (Array.getElem?_eq_some_iff.1 h).1
  rw [Array.getElem?_push, if_neg (Nat.ne_of_lt hi), h]

theorem Placement.getElem?_addTo (x : Placement) {t : Table} {i : Nat} {b : Block}
    (h : t[i]? = some b) : (x.addTo t)[i]? = some b := by
  cases x with
  | items xs => exact h
  | wrapped b' => exact Table.getElem?_push_of_some h b'

/-! ## Tables that are being filled -/

/-- An index that occurs once when it is in a range, and not at all otherwise, is in the range. -/
theorem mem_range_of_count {xs : List Nat} {k n : Nat}
    (h : ∀ j, xs.count j = if k ≤ j ∧ j < n then 1 else 0) {j : Nat} (hj : j ∈ xs) :
    k ≤ j ∧ j < n := by
  have hcount := h j
  have hpos := List.count_pos_iff.2 hj
  by_contra hnot
  rw [if_neg hnot] at hcount
  omega

/-- The indexes that the blocks of a table refer to, from the block at index `k` on. -/
def Table.referencesFrom (k : Nat) (t : Table) : List Nat :=
  (t.toList.drop k).flatMap Block.references

/-- A table whose blocks from index `k` on are referred to by each other and by the references in
`held`, and refer to no others. -/
structure Table.OwnedFrom (k : Nat) (t : Table) (held : List Nat) : Prop where
  size_le : k ≤ t.size
  once : ∀ j, (t.referencesFrom k ++ held).count j = if k ≤ j ∧ j < t.size then 1 else 0
  below : ∀ i b, k ≤ i → t[i]? = some b → ∀ j ∈ b.references, j < i

@[simp] theorem Table.referencesFrom_size (t : Table) : t.referencesFrom t.size = [] := by
  unfold referencesFrom
  rw [List.drop_eq_nil_of_le (by simp)]
  rfl

theorem Table.referencesFrom_push {k : Nat} {t : Table} (h : k ≤ t.size) (b : Block) :
    Table.referencesFrom k (t.push b) = t.referencesFrom k ++ b.references := by
  unfold referencesFrom
  rw [Array.toList_push, List.drop_append_of_le_length (by simpa using h)]
  simp

theorem Table.mem_referencesFrom {k i : Nat} {t : Table} {b : Block} (hi : k ≤ i)
    (hb : t[i]? = some b) {j : Nat} (hj : j ∈ b.references) : j ∈ t.referencesFrom k := by
  refine List.mem_flatMap.2 ⟨b, List.mem_of_getElem? (i := i - k) ?_, hj⟩
  rw [List.getElem?_drop, Nat.add_sub_cancel' hi, Array.getElem?_toList, hb]

namespace Table.OwnedFrom

variable {k : Nat} {t : Table} {held : List Nat}

theorem start (t : Table) : Table.OwnedFrom t.size t [] := by
  refine ⟨Nat.le_refl _, fun j => ?_, fun i b hi hb => ?_⟩
  · rw [referencesFrom_size, if_neg (by omega)]
    rfl
  · rw [Array.getElem?_eq_none hi] at hb
    cases hb

theorem mem_range (h : t.OwnedFrom k held) {j : Nat} (hj : j ∈ t.referencesFrom k ++ held) :
    k ≤ j ∧ j < t.size :=
  mem_range_of_count h.once hj

theorem congr (h : t.OwnedFrom k held) {held' : List Nat}
    (hcount : ∀ j, held'.count j = held.count j) : t.OwnedFrom k held' := by
  refine ⟨h.size_le, fun j => ?_, h.below⟩
  rw [← h.once j, List.count_append, List.count_append, hcount]

/-- A block joins the table: its references move there, and its own index is held. -/
theorem push {b : Block} (h : t.OwnedFrom k (b.references ++ held)) :
    Table.OwnedFrom k (t.push b) (t.size :: held) := by
  have hsize := h.size_le
  refine ⟨by simp; omega, fun j => ?_, fun i c hi hc j hj => ?_⟩
  · have hcount := h.once j
    simp only [referencesFrom_push hsize, List.count_append, List.count_cons, Array.size_push,
      beq_iff_eq] at hcount ⊢
    split_ifs at hcount ⊢ <;> omega
  · rw [Array.getElem?_push] at hc
    split at hc
    · next hlast =>
      obtain rfl := Option.some.inj hc
      have := (h.mem_range (j := j) (by simp [hj])).2
      omega
    · exact h.below i c hi hc j hj

/-- A command of a block leaves its items there, and the block they brought in the table. -/
theorem ofCommand (h : t.OwnedFrom k held) (line : String) (statements : List Shell.Statement)
    (parallel : Bool) :
    Table.OwnedFrom k ((Placement.ofCommand line statements parallel).addTo t)
      (referencesOf ((Placement.ofCommand line statements parallel).itemsIn t) ++ held) := by
  have hstatements : referencesOf (statements.map .ofStatement) = [] := by
    apply referencesOf_eq_nil
    intro x hx
    obtain ⟨s, -, rfl⟩ := List.mem_map.1 hx
    rfl
  unfold Placement.ofCommand
  split_ifs
  · show t.OwnedFrom k (referencesOf [_] ++ held)
    rw [referencesOf_eq_nil (by simp), List.nil_append]
    exact h
  · apply push
    unfold Block.references
    rw [hstatements, List.nil_append]
    exact h
  · show t.OwnedFrom k (referencesOf (statements.map .ofStatement) ++ held)
    rw [hstatements, List.nil_append]
    exact h

end Table.OwnedFrom

/-- A table whose blocks are referred to by each other and by the references in `held`. -/
structure Table.Owned (t : Table) (held : List Nat) : Prop where
  nonempty : 0 < t.size
  once : ∀ j, (t.references ++ held).count j = if 1 ≤ j ∧ j < t.size then 1 else 0
  below : ∀ i b, 1 ≤ i → t[i]? = some b → ∀ j ∈ b.references, j < i

/-- The default block holds its references as well as anything else does. -/
theorem Table.owned_iff {t : Table} {held : List Nat} :
    t.Owned held ↔
      ∃ b, t[Pipeline.defaultIndex]? = some b ∧ t.OwnedFrom 1 (b.references ++ held) := by
  have hreferences : ∀ b, t[Pipeline.defaultIndex]? = some b →
      t.references = b.references ++ t.referencesFrom 1 := by
    intro b hb
    rw [← Array.getElem?_toList] at hb
    obtain ⟨bs, hbs⟩ := List.head?_eq_some_iff.1 ((List.head?_eq_getElem? ..).trans hb)
    unfold references referencesFrom
    rw [hbs]
    rfl
  constructor
  · intro h
    obtain ⟨b, hb⟩ : ∃ b, t[Pipeline.defaultIndex]? = some b :=
      ⟨_, Array.getElem?_eq_getElem h.nonempty⟩
    refine ⟨b, hb, h.nonempty, fun j => ?_, h.below⟩
    rw [← h.once j, hreferences b hb]
    simp only [List.count_append]
    omega
  · rintro ⟨b, hb, h⟩
    refine ⟨h.size_le, fun j => ?_, h.below⟩
    rw [← h.once j, hreferences b hb]
    simp only [List.count_append]
    omega

namespace Table.Owned

variable {t : Table} {held : List Nat}

theorem mem_range (h : t.Owned held) {j : Nat} (hj : j ∈ t.references ++ held) :
    1 ≤ j ∧ j < t.size :=
  mem_range_of_count h.once hj

theorem congr (h : t.Owned held) {held' : List Nat} (hcount : ∀ j, held'.count j = held.count j) :
    t.Owned held' := by
  refine ⟨h.nonempty, fun j => ?_, h.below⟩
  rw [← h.once j, List.count_append, List.count_append, hcount]

/-- Blocks that grow behind the default block, whose references are held elsewhere meanwhile. -/
theorem of_ownedFrom {u : Table} {held' : List Nat} (h : t.Owned held) (hkeeps : ∀ b,
    t[Pipeline.defaultIndex]? = some b → u[Pipeline.defaultIndex]? = some b)
    (hgrows : ∀ rest, t.OwnedFrom 1 (held ++ rest) → u.OwnedFrom 1 (held' ++ rest)) :
    u.Owned held' := by
  obtain ⟨b, hb, hfrom⟩ := owned_iff.1 h
  have hswap : ∀ (xs : List Nat) (j : Nat),
      (xs ++ b.references).count j = (b.references ++ xs).count j :=
    fun xs j => List.perm_append_comm.count_eq j
  have hgrown := hgrows b.references (hfrom.congr (hswap held))
  exact owned_iff.2 ⟨b, hkeeps b hb, hgrown.congr fun j => (hswap held' j).symm⟩

theorem push {b : Block} (h : t.Owned (b.references ++ held)) :
    Table.Owned (t.push b) (t.size :: held) := by
  refine h.of_ownedFrom (fun c hc => getElem?_push_of_some hc b) fun rest hfrom => ?_
  rw [List.append_assoc] at hfrom
  exact hfrom.push

theorem ofCommand (h : t.Owned held) (line : String) (statements : List Shell.Statement)
    (parallel : Bool) :
    Table.Owned ((Placement.ofCommand line statements parallel).addTo t)
      (referencesOf ((Placement.ofCommand line statements parallel).itemsIn t) ++ held) := by
  refine h.of_ownedFrom (fun b hb => Placement.getElem?_addTo _ hb) fun rest hfrom => ?_
  rw [List.append_assoc]
  exact hfrom.ofCommand line statements parallel

theorem appendDefault {xs : List Item} (h : t.Owned (referencesOf xs ++ held)) :
    Table.Owned (t.modify Pipeline.defaultIndex (·.append xs)) held := by
  have hsize : 0 < t.toList.length := by simpa using h.nonempty
  obtain ⟨b, bs, hbs⟩ := List.exists_cons_of_length_pos hsize
  have hlist : (t.modify Pipeline.defaultIndex (·.append xs)).toList = b.append xs :: bs := by
    rw [Array.toList_modify, hbs]
    exact List.modify_zero_cons ..
  refine ⟨by simpa using h.nonempty, fun j => ?_, fun i c hi hc => ?_⟩
  · rw [Array.size_modify, ← h.once j]
    unfold Table.references
    rw [hlist, hbs]
    simp only [List.flatMap_cons, Block.references, Block.append, referencesOf_append,
      List.count_append]
    omega
  · apply h.below i c hi
    rw [← Array.getElem?_toList, hbs]
    rw [← Array.getElem?_toList, hlist] at hc
    rw [show i = i - 1 + 1 by omega, List.getElem?_cons_succ] at hc ⊢
    exact hc

/-- Blocks with the same references can stand for each other. -/
theorem of_references {t' : Table} (h : t.Owned held)
    (hsame : t'.toList.map Block.references = t.toList.map Block.references) : t'.Owned held := by
  have hsize : t'.size = t.size := by
    simpa using congrArg List.length hsame
  have href : t'.references = t.references := by
    unfold Table.references
    rw [List.flatMap_def, hsame, List.flatMap_def]
  refine ⟨by rw [hsize]; exact h.nonempty, fun j => ?_, fun i c hi hc j hj => ?_⟩
  · rw [href, hsize]
    exact h.once j
  · have hget := congrArg (·[i]?) hsame
    simp only [List.getElem?_map, Array.getElem?_toList, hc, Option.map_some] at hget
    obtain ⟨b, hb, hbc⟩ := Option.map_eq_some_iff.1 hget.symm
    exact h.below i b hi hb j (hbc ▸ hj)

end Table.Owned

/-- A pipeline whose table is owned by its procedures is a forest. -/
theorem Pipeline.isForest_of_owned {p : Pipeline}
    (h : Table.Owned p.blocks (p.procedures.values.map Procedure.blockIndex)) : p.IsForest := by
  refine ⟨h.nonempty, fun h0 => ?_, fun j hj => (h.mem_range hj).2, fun j hpos hlt => ?_,
    fun i b hi hb j hj => ⟨?_, h.below i b hi hb j hj⟩⟩
  · exact absurd (h.mem_range h0).1 (by decide)
  · exact (h.once j).trans (if_pos ⟨hpos, hlt⟩)
  · have hmem : j ∈ Table.references p.blocks :=
      List.mem_flatMap.2 ⟨b, Array.mem_toList_iff.2 (Array.mem_of_getElem? hb), hj⟩
    exact (h.mem_range (List.mem_append_left _ hmem)).1

/-! ## Promotion -/

/-- A promotion turns a shell command into a call: no reference comes or goes. -/
theorem blockIndex?_of_promote {x y : Item} {known : String → Bool}
    (h : x.promote known = .ok (some y)) : y.blockIndex? = x.blockIndex? := by
  unfold Item.promote at h
  split at h
  · next line head words haction =>
    have hx : x.blockIndex? = none := by
      unfold Item.blockIndex?
      rw [haction]
    rw [hx]
    split at h
    · split at h
      · next args hargs =>
        obtain ⟨more, -, rfl⟩ := Option.map_eq_some_iff.1 (Except.ok.inj h)
        rfl
      · cases h
    · cases h
  · cases h

theorem referencesOf_promoteItems (known : String → Bool) (xs : List Item) :
    referencesOf (promoteItems known xs).value = referencesOf xs := by
  induction xs with
  | nil => rfl
  | cons x xs ih =>
    unfold promoteItems
    split
    · rfl
    · simp only [referencesOf, List.filterMap_cons] at ih ⊢
      rw [ih]
    · next call hcall =>
      simp only [referencesOf, List.filterMap_cons] at ih ⊢
      rw [ih, blockIndex?_of_promote hcall]

theorem references_promoteBlocks (known : String → Bool) (bs : List Block) :
    (promoteBlocks known bs).value.map Block.references = bs.map Block.references := by
  induction bs with
  | nil => rfl
  | cons b bs ih =>
    have hhere := referencesOf_promoteItems known b.items
    unfold promoteBlocks
    simp only
    split
    · simp only [List.map_cons, Block.references, hhere]
    · rw [List.map_cons, List.map_cons, ih]
      congr 1

theorem Table.Owned.check {p : Pipeline} {held : List Nat} (h : Table.Owned p.blocks held) :
    Table.Owned p.check.1.blocks held := by
  apply h.of_references
  show ((promoteBlocks _ p.blocks.toList).value.toArray.toList).map _ = _
  rw [List.toList_toArray]
  exact references_promoteBlocks _ _

end Runbook
