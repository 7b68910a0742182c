import Runbook.Proofs.Pipeline.Joining
import Runbook.Proofs.Pipeline.Outline
import Runbook.Proofs.Pipeline.Promotion

/-!
# Outlines do not depend on places

A pipeline is embedded in another one when that has the same blocks, all moved by the same number
(`Pipeline.Embeds`). A block then has the same outline in both (`Embeds.outline`). A joined pipeline
embeds both of its parts, before and after the promotion of calls (`Pipeline.promoted_followedBy`).
-/

namespace Runbook

/-! ## Promotion of shifted blocks -/

theorem Item.promote_shift (known : String → Bool) (k : Nat) (x : Item) :
    (x.shift k).promote known = x.promote known := by
  unfold promote shift
  cases x.action <;> rfl

theorem Item.promoted_shift (known : String → Bool) (k : Nat) (x : Item) :
    (x.shift k).promoted known = (x.promoted known).shift k := by
  unfold promoted
  rw [promote_shift]
  split
  · next y hy =>
    obtain ⟨name, args, rfl, -, -⟩ := exists_call_of_promote hy
    rfl
  · rfl

theorem Block.promoted_shift (known : String → Bool) (k : Nat) (b : Block) :
    (b.shift k).promoted known = (b.promoted known).shift k := by
  simp only [promoted, shift, List.map_map]
  congr 1
  exact List.map_congr_left fun x _ => Item.promoted_shift known k x

theorem Block.promoted_append (known : String → Bool) (b : Block) (xs : List Item) :
    (b.append xs).promoted known = (b.promoted known).append (xs.map (.promoted known)) := by
  simp [promoted, append]

theorem Item.settled_shift {known : String → Bool} {k : Nat} {x : Item} :
    (x.shift k).Settled known ↔ x.Settled known := by
  unfold Settled
  rw [promote_shift]

theorem Block.settled_shift {known : String → Bool} {k : Nat} {b : Block} :
    (b.shift k).Settled known ↔ b.Settled known := by
  simp [Settled, Item.settled_shift]

theorem Block.settled_append {known : String → Bool} {b : Block} {xs : List Item} :
    (b.append xs).Settled known ↔ b.Settled known ∧ ∀ x ∈ xs, x.Settled known := by
  simp [Settled, append, or_imp, forall_and]

namespace Table

theorem settled_followedBy {known : String → Bool} {t u : Table} (ht : 0 < t.size)
    (hu : 0 < u.size) : (∀ b ∈ t.followedBy u, b.Settled known) ↔
      (∀ b ∈ t, b.Settled known) ∧ ∀ b ∈ u, b.Settled known := by
  obtain ⟨c, cs, htable⟩ := List.exists_cons_of_length_pos (l := t.toList) (by simpa using ht)
  obtain ⟨d, ds, hsecond⟩ := List.exists_cons_of_length_pos (l := u.toList) (by simpa using hu)
  obtain rfl : t = (c :: cs).toArray := by rw [← htable]
  obtain rfl : u = (d :: ds).toArray := by rw [← hsecond]
  have hblocks : (followedBy (c :: cs).toArray (d :: ds).toArray).toList =
      c.append (d.items.map (.shift cs.length)) :: (cs ++ ds.map (.shift cs.length)) := by
    simp [followedBy, defaultItems, offset, Pipeline.defaultIndex]
  simp only [← Array.mem_toList_iff, hblocks, List.forall_mem_cons, List.forall_mem_append,
    List.forall_mem_map, Block.settled_append, Block.settled_shift, Item.settled_shift]
  exact and_and_and_comm

theorem defaultItems_promoted (known : String → Bool) (t : Table) :
    defaultItems (t.map (.promoted known)) = t.defaultItems.map (.promoted known) := by
  unfold defaultItems
  rw [Array.getElem?_map]
  cases t[Pipeline.defaultIndex]? <;> rfl

theorem promoted_followedBy (known : String → Bool) (t u : Table) :
    (t.followedBy u).map (.promoted known) =
      followedBy (t.map (.promoted known)) (u.map (.promoted known)) := by
  have hoffset : offset (t.map (.promoted known)) = t.offset := by
    simp [offset]
  have hmoved : ∀ b : Block,
      (b.shift t.offset).promoted known = (b.promoted known).shift t.offset :=
    Block.promoted_shift known t.offset
  have hitems : (u.defaultItems.map (Item.shift t.offset)).map (Item.promoted known) =
      (u.defaultItems.map (Item.promoted known)).map (Item.shift t.offset) := by
    rw [List.map_map, List.map_map]
    exact List.map_congr_left fun x _ => Item.promoted_shift known t.offset x
  apply Array.toList_inj.1
  cases ht : t.toList <;>
    simp [followedBy, hoffset, defaultItems_promoted, Array.toList_modify, ht, ← hitems,
      Block.promoted_append, Pipeline.defaultIndex, Function.comp_def, hmoved]

end Table

theorem blockIndex?_promoted (known : String → Bool) (x : Item) :
    (x.promoted known).blockIndex? = x.blockIndex? := by
  unfold Item.promoted
  split
  · next y hy => exact blockIndex?_of_promote hy
  · rfl

theorem references_promoted (known : String → Bool) (b : Block) :
    (b.promoted known).references = b.references := by
  simp only [Block.references, referencesOf, Block.promoted, List.filterMap_map]
  congr 1
  funext x
  exact blockIndex?_promoted known x

namespace Pipeline

/-- The pipeline with every call of the known procedures promoted. -/
def promoted (known : String → Bool) (p : Pipeline) : Pipeline :=
  { p with blocks := p.blocks.map (.promoted known) }

/-- Promotion finds no option twice in the pipeline. -/
def Settled (known : String → Bool) (p : Pipeline) : Prop :=
  ∀ b ∈ p.blocks, b.Settled known

theorem check_ok_iff {p : Pipeline} :
    p.check.2.result = .ok ⟨⟩ ↔ p.Settled p.procedures.contains :=
  ⟨settled_of_check, fun h => (check_of_settled h).2⟩

theorem check_eq_promoted {p : Pipeline} (h : p.Settled p.procedures.contains) :
    p.check.1 = p.promoted p.procedures.contains :=
  (check_of_settled h).1

theorem offset_promoted (known : String → Bool) (p : Pipeline) :
    (p.promoted known).offset = p.offset := by
  simp [promoted, offset, Table.offset]

/-- The promotion of a joined pipeline is that of its parts. -/
theorem promoted_followedBy (known : String → Bool) (p q : Pipeline) (lines : Nat) :
    (p.followedBy q lines).promoted known =
      (p.promoted known).followedBy (q.promoted known) lines := by
  unfold followedBy
  rw [offset_promoted]
  simp only [promoted, Table.promoted_followedBy]

end Pipeline

theorem Table.Owned.promoted {t : Table} {held : List Nat} (h : t.Owned held)
    (known : String → Bool) : Table.Owned (t.map (.promoted known)) held := by
  apply h.of_references
  rw [Array.toList_map, List.map_map]
  exact List.map_congr_left fun b _ => references_promoted known b

/-! ## Embedded pipelines -/

namespace Pipeline

variable {p q : Pipeline} {k n m i : Nat} {o : Outline}

/-- The blocks of a pipeline but the default one, all moved by the same number, are blocks of
another one. -/
def Embeds (k : Nat) (p q : Pipeline) : Prop :=
  ∀ i b, 1 ≤ i → p.blocks[i]? = some b → q.blocks[i + k]? = some (b.shift k)

/-- No block runs the default block. -/
def Free (p : Pipeline) : Prop :=
  ∀ b ∈ p.blocks, ∀ j ∈ b.references, 1 ≤ j

theorem IsForest.toFree (h : p.IsForest) : p.Free := by
  intro b hb j hj
  obtain ⟨i, hi⟩ := Array.mem_iff_getElem?.1 hb
  have hne : j ≠ defaultIndex := by
    rintro rfl
    exact h.free (mem_references_of_mem hi hj)
  exact Nat.one_le_iff_ne_zero.2 hne

theorem itemOutlineWith_shift {f g : Nat → Except Misuse Outline} {x : Item}
    (h : ∀ j, x.blockIndex? = some j → f j = .ok o → g (j + k) = .ok o)
    (hx : itemOutlineWith f x = .ok o) : itemOutlineWith g (x.shift k) = .ok o := by
  unfold itemOutlineWith at hx ⊢
  unfold Item.blockIndex? at h
  unfold Item.shift Action.shift
  cases haction : x.action with
  | shell line head args =>
    rw [haction] at hx
    exact hx
  | call name args =>
    rw [haction] at hx
    exact hx
  | block j =>
    rw [haction] at hx h
    exact h j rfl hx

/-- An embedded block has its outline within every depth that is large enough. -/
theorem Embeds.outlineWithin (h : p.Embeds k q) (hfree : p.Free) (hi : 1 ≤ i) (hnm : n ≤ m)
    (ho : p.outlineWithin n i = .ok o) : q.outlineWithin m (i + k) = .ok o := by
  induction n generalizing m i o with
  | zero => cases ho
  | succ n ih =>
    obtain ⟨m, rfl⟩ : ∃ m', m = m' + 1 := ⟨m - 1, by omega⟩
    obtain ⟨b, members, hb, hmembers, rfl⟩ := outlineWithin_ok ho
    have hitems : (b.items.map (.shift k)).mapM (itemOutlineWith (q.outlineWithin m)) =
        .ok members := by
      refine mapM_map_ok (fun x hx y hy => itemOutlineWith_shift (fun j hj houtline => ?_) hy)
        hmembers
      have hpos := hfree b (Array.mem_of_getElem? hb) j (List.mem_filterMap.2 ⟨x, hx, hj⟩)
      exact ih hpos (Nat.le_of_succ_le_succ hnm) houtline
    rw [outlineWithin_succ (h i b hi hb), Block.shift_items, hitems]
    rfl

/-- **Places.** A block has the same outline wherever its pipeline is embedded. -/
theorem Embeds.outline (h : p.Embeds k q) (hfree : p.Free) (hsize : p.blocks.size ≤ q.blocks.size)
    (hi : 1 ≤ i) (ho : p.outline i = .ok o) : q.outline (i + k) = .ok o :=
  h.outlineWithin hfree hi (Nat.succ_le_succ hsize) ho

theorem Embeds.mapM_itemOutline (h : p.Embeds k q) (hfree : p.Free)
    (hsize : p.blocks.size ≤ q.blocks.size) {b : Block} (hb : b ∈ p.blocks) {os : List Outline}
    (hos : b.items.mapM p.itemOutline = .ok os) :
    (b.items.map (.shift k)).mapM q.itemOutline = .ok os := by
  refine mapM_map_ok (fun x hx y hy => itemOutlineWith_shift (fun j hj houtline => ?_) hy) hos
  exact h.outline hfree hsize (hfree b hb j (List.mem_filterMap.2 ⟨x, hx, hj⟩)) houtline

/-! ## Parts of a joined pipeline -/

theorem size_le_followedBy_left (p : Pipeline) (hq : 0 < q.blocks.size) (lines : Nat) :
    p.blocks.size ≤ (p.followedBy q lines).blocks.size := by
  rcases Nat.eq_zero_or_pos p.blocks.size with hzero | hpos
  · exact hzero ▸ Nat.zero_le _
  · show _ ≤ Array.size (Table.followedBy _ _)
    rw [Table.size_followedBy hpos hq, Table.offset]
    omega

theorem size_le_followedBy_right (hp : 0 < p.blocks.size) (hq : 0 < q.blocks.size)
    (lines : Nat) : q.blocks.size ≤ (p.followedBy q lines).blocks.size := by
  show _ ≤ Array.size (Table.followedBy _ _)
  rw [Table.size_followedBy hp hq]
  exact Nat.le_add_right _ _

theorem embeds_followedBy_left (p q : Pipeline) (lines : Nat) :
    p.Embeds 0 (p.followedBy q lines) := by
  intro i b hi hb
  rw [Block.shift_zero]
  exact Table.getElem?_followedBy_left hi hb

theorem embeds_followedBy_right (hp : 0 < p.blocks.size) (q : Pipeline) (lines : Nat) :
    q.Embeds p.offset (p.followedBy q lines) :=
  fun _ _ hi hb => Table.getElem?_followedBy_right hp hi hb

theorem outline_followedBy_left (hp : p.Free) (hq : 0 < q.blocks.size) (lines : Nat) (hi : 1 ≤ i)
    (ho : p.outline i = .ok o) : (p.followedBy q lines).outline i = .ok o :=
  (embeds_followedBy_left p q lines).outline hp (size_le_followedBy_left p hq lines) hi ho

theorem outline_followedBy_right (hp : 0 < p.blocks.size) (hq : q.Free) (hsize : 0 < q.blocks.size)
    (lines : Nat) (hi : 1 ≤ i) (ho : q.outline i = .ok o) :
    (p.followedBy q lines).outline (i + p.offset) = .ok o :=
  (embeds_followedBy_right hp q lines).outline hq (size_le_followedBy_right hp hsize lines) hi ho

/-- The outlines of what the default block runs. -/
def members (p : Pipeline) : Except Misuse (List Outline) :=
  (Table.defaultItems p.blocks).mapM p.itemOutline

theorem members_promoted_of_nil (h : Table.defaultItems p.blocks = []) (known : String → Bool) :
    (p.promoted known).members = .ok [] := by
  have hitems : Table.defaultItems (p.promoted known).blocks = [] := by
    unfold promoted
    rw [Table.defaultItems_promoted, h, List.map_nil]
  unfold members
  rw [hitems]
  rfl

/-- The default block of a joined pipeline runs what those of its parts run. -/
theorem members_followedBy (hp : p.Free) (hq : q.Free) (hpsize : 0 < p.blocks.size)
    (hqsize : 0 < q.blocks.size) (lines : Nat) {os os' : List Outline} (hos : p.members = .ok os)
    (hos' : q.members = .ok os') : (p.followedBy q lines).members = .ok (os ++ os') := by
  obtain ⟨b, -, hb⟩ := exists_block hpsize
  obtain ⟨b', -, hb'⟩ := exists_block hqsize
  unfold members at hos hos' ⊢
  rw [Table.defaultItems_eq hb] at hos
  rw [Table.defaultItems_eq hb'] at hos'
  have hleft := (embeds_followedBy_left p q lines).mapM_itemOutline hp
    (size_le_followedBy_left p hqsize lines) (Array.mem_of_getElem? hb) hos
  have hright := (embeds_followedBy_right hpsize q lines).mapM_itemOutline hq
    (size_le_followedBy_right hpsize hqsize lines) (Array.mem_of_getElem? hb') hos'
  rw [Item.map_shift_zero] at hleft
  show (Table.defaultItems (Table.followedBy _ _)).mapM _ = _
  rw [Table.defaultItems_followedBy hpsize, Table.defaultItems_eq hb, Table.defaultItems_eq hb',
    List.mapM_append, hleft]
  unfold offset at hright
  rw [hright]
  rfl

/-! ## What a joined pipeline has -/

variable {known : String → Bool} {name : String} {attributes : List (String × String)}

/-- A procedure of this name, attributes and outline, when the calls of the known procedures are
promoted. -/
def Has (known : String → Bool) (p : Pipeline) (name : String)
    (attributes : List (String × String)) (o : Outline) : Prop :=
  ∃ x, p.procedures.get? name = some x ∧ x.attributes = attributes ∧
    (p.promoted known).outline x.blockIndex = .ok o

/-- The body of a procedure is a block of the table, and not the default one. -/
theorem IsForest.body_range (h : p.IsForest) {x : Procedure}
    (hx : p.procedures.get? name = some x) : 1 ≤ x.blockIndex ∧ x.blockIndex < p.blocks.size := by
  have hmem : x.blockIndex ∈ p.references := by
    apply List.mem_append_right
    exact List.mem_map_of_mem (List.mem_map_of_mem (ByName.mem_entries_iff.2 hx))
  refine ⟨Nat.one_le_iff_ne_zero.2 fun hzero => h.free ?_, h.inRange _ hmem⟩
  rw [← show x.blockIndex = defaultIndex from hzero]
  exact hmem

theorem IsForest.exists_body (h : (p.promoted known).IsForest) {x : Procedure}
    (hx : p.procedures.get? name = some x) :
    1 ≤ x.blockIndex ∧ ∃ o, (p.promoted known).outline x.blockIndex = .ok o := by
  have hkeep : (p.promoted known).procedures.get? name = some x := hx
  obtain ⟨hpos, hlt⟩ := h.body_range hkeep
  exact ⟨hpos, h.ranked.exists_outline hlt⟩

theorem IsForest.exists_members (h : p.IsForest) : ∃ os, p.members = .ok os := by
  obtain ⟨b, -, hb⟩ := exists_block h.nonempty
  obtain ⟨o, ho⟩ := h.ranked.exists_outline h.nonempty
  have houtline := h.ranked.outline_eq (i := defaultIndex) hb
  unfold members
  rw [Table.defaultItems_eq hb]
  cases hos : b.items.mapM p.itemOutline with
  | ok os => exact ⟨os, rfl⟩
  | error e =>
    rw [hos] at houtline
    cases ho.symm.trans houtline

/-- Two pipelines that have the same procedures and whose default blocks run the same are alike. -/
theorem alike_of_has (hp : (p.promoted known).IsForest)
    (hnames : ∀ name, q.procedures.contains name = p.procedures.contains name)
    (hhas : ∀ name attributes o, p.Has known name attributes o → q.Has known name attributes o)
    (hdefault : ∃ tree, (p.promoted known).tree defaultIndex = .ok tree ∧
      (q.promoted known).tree defaultIndex = .ok tree) :
    (p.promoted known).Alike (q.promoted known) := by
  refine ⟨ByName.names_eq_of_contains hnames, fun name x y hx hy => ?_, hdefault⟩
  obtain ⟨-, o, ho⟩ := hp.exists_body hx
  obtain ⟨y', hy', hattributes, ho'⟩ := hhas name x.attributes o ⟨x, hx, rfl, ho⟩
  obtain rfl := Option.some.inj (hy'.symm.trans hy)
  exact ⟨hattributes, o.simplify, tree_of_outline ho, tree_of_outline ho'⟩

theorem has_followedBy_iff (hp : (p.promoted known).IsForest) (hq : (q.promoted known).IsForest)
    (hapart : ∀ name, p.procedures.contains name = true → q.procedures.contains name = false)
    (lines : Nat) : (p.followedBy q lines).Has known name attributes o ↔
      p.Has known name attributes o ∨ q.Has known name attributes o := by
  have hleft : ∀ {x o}, p.procedures.get? name = some x →
      (p.promoted known).outline x.blockIndex = .ok o →
      ((p.followedBy q lines).promoted known).outline x.blockIndex = .ok o := by
    intro x o hx ho
    rw [promoted_followedBy]
    exact outline_followedBy_left hp.toFree hq.nonempty lines (hp.exists_body hx).1 ho
  have hright : ∀ {x o}, q.procedures.get? name = some x →
      (q.promoted known).outline x.blockIndex = .ok o →
      ((p.followedBy q lines).promoted known).outline (x.blockIndex + p.offset) = .ok o := by
    intro x o hx ho
    rw [promoted_followedBy, ← offset_promoted known]
    exact outline_followedBy_right hp.nonempty hq.toFree hq.nonempty lines (hq.exists_body hx).1 ho
  constructor
  · rintro ⟨x, hx, hattributes, ho⟩
    rw [get?_procedures_followedBy] at hx
    cases hy : q.procedures.get? name with
    | some y =>
      rw [hy] at hx
      obtain rfl := Option.some.inj hx
      obtain ⟨-, o', ho'⟩ := hq.exists_body hy
      obtain rfl := Except.ok.inj ((hright hy ho').symm.trans ho)
      exact .inr ⟨y, hy, hattributes, ho'⟩
    | none =>
      rw [hy] at hx
      replace hx : p.procedures.get? name = some x := hx
      obtain ⟨-, o', ho'⟩ := hp.exists_body hx
      obtain rfl := Except.ok.inj ((hleft hx ho').symm.trans ho)
      exact .inl ⟨x, hx, hattributes, ho'⟩
  · rintro (⟨x, hx, hattributes, ho⟩ | ⟨x, hx, hattributes, ho⟩)
    · have hnone := ByName.contains_eq_false_iff.1
        (hapart name (ByName.contains_iff.2 ⟨x, hx⟩))
      exact ⟨x, by rw [get?_procedures_followedBy, hnone, hx]; rfl, hattributes, hleft hx ho⟩
    · exact ⟨x.shift p.offset, by rw [get?_procedures_followedBy, hx]; rfl, hattributes,
        hright hx ho⟩

theorem settled_followedBy (hp : 0 < p.blocks.size) (hq : 0 < q.blocks.size) (lines : Nat) :
    (p.followedBy q lines).Settled known ↔ p.Settled known ∧ q.Settled known :=
  Table.settled_followedBy hp hq

end Pipeline

end Runbook
