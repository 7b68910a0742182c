import Mathlib.Logic.Equiv.Defs
import Runbook.Proofs.ByName
import Runbook.Proofs.Pipeline.Outline

/-!
# Trees do not depend on wrapping and numbers

The tree of a block is gathered from the trees of its items, and a single item is its own tree
(`Ranked.tree_eq`). So no group in a tree has one member, an item can be put into a block of its own
(`Pipeline.wrapItem`), and blocks can change places when their references follow
(`Pipeline.permute`). Both are shown block by block, from the blocks that are referred to up: the
references of the changed pipeline lead down in a rank as well, so it has trees at all.
-/

namespace Runbook

/-! ## Groups of one member -/

namespace Outline

/-- The group of some outlines, or the only one of them. -/
def gather (parallel : Bool) : List Outline → Outline
  | [x] => x
  | xs => .group parallel xs

mutual

/-- No group in the outline has exactly one member. -/
def Compact : Outline → Prop
  | .shell _ => True
  | .call _ _ => True
  | .group _ members => members.length ≠ 1 ∧ CompactAll members

def CompactAll : List Outline → Prop
  | [] => True
  | x :: xs => x.Compact ∧ CompactAll xs

end

theorem simplify_group (parallel : Bool) (members : List Outline) :
    (group parallel members).simplify = gather parallel (members.map simplify) := by
  rw [simplify, simplifyAll_eq_map]
  match members.map simplify with
  | [] => rfl
  | [_] => rfl
  | _ :: _ :: _ => rfl

theorem compact_gather (parallel : Bool) {xs : List Outline} (h : CompactAll xs) :
    (gather parallel xs).Compact := by
  match xs, h with
  | [], h => exact ⟨by simp, h⟩
  | [x], h => exact h.1
  | x :: y :: zs, h => exact ⟨by simp, h⟩

mutual

theorem compact_simplify : ∀ x : Outline, x.simplify.Compact
  | .shell _ => by
    rw [simplify, Compact]
    trivial
  | .call _ _ => by
    rw [simplify, Compact]
    trivial
  | .group parallel members => by
    rw [simplify_group, ← simplifyAll_eq_map]
    exact compact_gather parallel (compactAll_simplifyAll members)

theorem compactAll_simplifyAll : ∀ xs : List Outline, CompactAll (simplifyAll xs)
  | [] => by
    rw [simplifyAll, CompactAll]
    trivial
  | x :: xs => by
    rw [simplifyAll, CompactAll]
    exact ⟨compact_simplify x, compactAll_simplifyAll xs⟩

end

end Outline

/-! ## Moved references -/

/-- The action with its reference changed. -/
def Action.redirect (f : Nat → Nat) : Action → Action
  | .shell line head args => .shell line head args
  | .call name args => .call name args
  | .block i => .block (f i)

def Item.redirect (f : Nat → Nat) (x : Item) : Item :=
  { x with action := x.action.redirect f }

def Block.redirect (f : Nat → Nat) (b : Block) : Block :=
  { b with items := b.items.map (.redirect f) }

def Procedure.redirect (f : Nat → Nat) (x : Procedure) : Procedure :=
  { x with blockIndex := f x.blockIndex }

/-- The block with a reference in the place of an item. -/
def Block.refer (b : Block) (m i : Nat) : Block :=
  { b with items := b.items.set m (.block i) }

/-- Where a permutation of the indexes of a table takes an index. -/
def permuted {n : Nat} (σ : Equiv.Perm (Fin n)) (i : Nat) : Nat :=
  if h : i < n then σ ⟨i, h⟩ else i

theorem Item.redirect_id (x : Item) : x.redirect id = x := by
  obtain ⟨label, action⟩ := x
  cases action <;> rfl

theorem Block.references_redirect (f : Nat → Nat) (b : Block) :
    (b.redirect f).references = b.references.map f := by
  have hitem : ∀ x : Item, (x.redirect f).blockIndex? = x.blockIndex?.map f := by
    rintro ⟨label, action⟩
    cases action <;> rfl
  unfold references referencesOf redirect
  rw [List.filterMap_map, List.map_filterMap]
  exact List.filterMap_congr fun x _ => hitem x

theorem Block.mem_references_refer {b : Block} {m i j : Nat} (h : j ∈ (b.refer m i).references) :
    j = i ∨ j ∈ b.references := by
  obtain ⟨x, hx, hj⟩ := List.mem_filterMap.1 h
  rcases List.mem_or_eq_of_mem_set hx with hx | rfl
  · exact .inr (List.mem_filterMap.2 ⟨x, hx, hj⟩)
  · exact .inl (Option.some.inj hj).symm

theorem permuted_val {n : Nat} (σ : Equiv.Perm (Fin n)) (i : Fin n) : permuted σ i = σ i :=
  dif_pos i.isLt

theorem permuted_symm_val {n : Nat} (σ : Equiv.Perm (Fin n)) (i : Fin n) :
    permuted σ.symm (σ i) = i := by
  rw [permuted_val, Equiv.symm_apply_apply]

namespace Pipeline

variable {p q : Pipeline} {rank : Nat → Nat}

/-- The simplified outline of an item. -/
def itemTree (p : Pipeline) (x : Item) : Except Misuse Outline :=
  Outline.simplify <$> p.itemOutline x

/-- The pipeline with an item moved to a block of its own, behind all others, and a reference in its
place. Where there is no such item nothing changes. -/
def wrapItem (p : Pipeline) (k m : Nat) (parallel : Bool) : Pipeline :=
  match p.blocks[k]?.bind (·.items[m]?) with
  | none => p
  | some x =>
    pushBlock { p with blocks := p.blocks.modify k (·.refer m p.blocks.size) } ⟨[x], parallel⟩

/-- The pipeline with its blocks in another order, and all references moved along. -/
def permute (p : Pipeline) (σ : Equiv.Perm (Fin p.blocks.size)) : Pipeline where
  blocks := .ofFn fun i => p.blocks[σ.symm i].redirect (permuted σ)
  procedures := p.procedures.mapValues fun _ => .redirect (permuted σ)
  declarations := p.declarations

/-! ## Trees from trees -/

theorem itemTree_redirect {f : Nat → Nat} {x : Item}
    (h : ∀ j, x.blockIndex? = some j → q.tree (f j) = p.tree j) :
    q.itemTree (x.redirect f) = p.itemTree x := by
  obtain ⟨label, action⟩ := x
  cases action with
  | shell line head args => rfl
  | call name args => rfl
  | block j => exact h j rfl

theorem itemTree_congr {x : Item} (h : ∀ j, x.blockIndex? = some j → q.tree j = p.tree j) :
    q.itemTree x = p.itemTree x := by
  have hsame := itemTree_redirect (f := id) h
  rwa [Item.redirect_id] at hsame

/-- The tree of a block is gathered from the trees of its items. -/
theorem Ranked.tree_eq (h : p.Ranked rank) {i : Nat} {b : Block} (hget : p.blocks[i]? = some b) :
    p.tree i = (b.items.mapM p.itemTree).map (.gather b.parallel) := by
  have hitems := mapM_result_map p.itemOutline Outline.simplify b.items
  unfold tree
  rw [h.outline_eq hget]
  show Except.map _ (Except.map _ _) = Except.map _ (b.items.mapM fun x => (p.itemOutline x).map _)
  rw [hitems]
  cases b.items.mapM p.itemOutline with
  | error e => rfl
  | ok members => exact congrArg Except.ok (Outline.simplify_group b.parallel members)

theorem Ranked.tree_congr (h : p.Ranked rank) {r : Nat → Nat} (hr : q.Ranked r) {i j : Nat}
    {b c : Block} (hb : p.blocks[i]? = some b) (hc : q.blocks[j]? = some c)
    (hparallel : c.parallel = b.parallel)
    (hitems : c.items.mapM q.itemTree = b.items.mapM p.itemTree) : q.tree j = p.tree i := by
  rw [hr.tree_eq hc, h.tree_eq hb, hparallel, hitems]

theorem Ranked.tree_of_singleton (h : p.Ranked rank) {i : Nat} {x : Item} {parallel : Bool}
    (hget : p.blocks[i]? = some ⟨[x], parallel⟩) : p.tree i = p.itemTree x := by
  rw [h.tree_eq hget]
  show Except.map _ ([x].mapM p.itemTree) = _
  rw [List.mapM_cons]
  cases p.itemTree x <;> rfl

theorem Ranked.exists_compact_tree (h : p.Ranked rank) {i : Nat} (hi : i < p.blocks.size) :
    ∃ o, p.tree i = .ok o ∧ o.Compact := by
  obtain ⟨o, ho⟩ := h.exists_outline hi
  exact ⟨o.simplify, tree_of_outline ho, Outline.compact_simplify o⟩

/-! ## Wrapped items -/

section WrapItem

variable {k m : Nat} {x : Item} {parallel : Bool}

theorem getElem?_wrapItem (hx : p.blocks[k]?.bind (·.items[m]?) = some x) (parallel : Bool)
    (i : Nat) :
    (p.wrapItem k m parallel).blocks[i]? =
      if i = p.blocks.size then some ⟨[x], parallel⟩
      else if k = i then p.blocks[i]?.map (·.refer m p.blocks.size)
      else p.blocks[i]? := by
  unfold wrapItem
  rw [hx]
  show (Array.push _ _)[i]? = _
  rw [Array.getElem?_push, Array.size_modify, Array.getElem?_modify]

theorem size_wrapItem (hx : p.blocks[k]?.bind (·.items[m]?) = some x) (parallel : Bool) :
    (p.wrapItem k m parallel).blocks.size = p.blocks.size + 1 := by
  unfold wrapItem
  rw [hx]
  show (Array.push _ _).size = _
  rw [Array.size_push, Array.size_modify]

theorem cases_wrapItem {i : Nat} {b : Block} (hx : p.blocks[k]?.bind (·.items[m]?) = some x)
    (h : (p.wrapItem k m parallel).blocks[i]? = some b) :
    (i = p.blocks.size ∧ b = ⟨[x], parallel⟩) ∨
      (i < p.blocks.size ∧ i = k ∧ ∃ a, p.blocks[k]? = some a ∧ b = a.refer m p.blocks.size) ∨
      (i < p.blocks.size ∧ p.blocks[i]? = some b) := by
  rw [getElem?_wrapItem hx] at h
  split_ifs at h with hlast hk
  · exact .inl ⟨hlast, (Option.some.inj h).symm⟩
  · subst hk
    obtain ⟨a, ha, rfl⟩ := Option.map_eq_some_iff.1 h
    exact .inr (.inl ⟨(Array.getElem?_eq_some_iff.1 ha).1, rfl, a, ha, rfl⟩)
  · exact .inr (.inr ⟨(Array.getElem?_eq_some_iff.1 h).1, h⟩)

/-- The new block finds its place in the rank between the block it is taken from and the blocks
below that. -/
theorem Ranked.exists_ranked_wrapItem (h : p.Ranked rank)
    (hx : p.blocks[k]?.bind (·.items[m]?) = some x) (parallel : Bool) :
    ∃ r, (p.wrapItem k m parallel).Ranked r := by
  obtain ⟨a, ha, hitem⟩ := Option.bind_eq_some_iff.1 hx
  have hxa : ∀ j ∈ referencesOf [x], j ∈ a.references := by
    intro j hmem
    obtain ⟨y, hy, hj⟩ := List.mem_filterMap.1 hmem
    obtain rfl := List.mem_singleton.1 hy
    exact List.mem_filterMap.2 ⟨y, List.mem_of_getElem? hitem, hj⟩
  refine exists_ranked (fun i => if i = p.blocks.size then 2 * rank k else 2 * rank i + 1) ?_
  intro i b hb j hj
  rw [size_wrapItem hx]
  rcases cases_wrapItem hx hb with ⟨rfl, rfl⟩ | ⟨hi, rfl, c, hc, rfl⟩ | ⟨hi, hb⟩
  · obtain ⟨hlt, hfalls⟩ := h.falls k a ha j (hxa j hj)
    refine ⟨by omega, ?_⟩
    rw [if_pos rfl, if_neg (Nat.ne_of_lt hlt)]
    omega
  · rw [if_neg (Nat.ne_of_lt hi)]
    rcases Block.mem_references_refer hj with rfl | hj
    · rw [if_pos rfl]
      omega
    · obtain ⟨hlt, hfalls⟩ := h.falls i c hc j hj
      rw [if_neg (Nat.ne_of_lt hlt)]
      omega
  · obtain ⟨hlt, hfalls⟩ := h.falls i b hb j hj
    rw [if_neg (Nat.ne_of_lt hi), if_neg (Nat.ne_of_lt hlt)]
    omega

/-- **Wrapping.** An item can be moved to a block of its own, with either flag. -/
theorem Ranked.tree_wrapItem (h : p.Ranked rank) {i : Nat} (hi : i < p.blocks.size) :
    (p.wrapItem k m parallel).tree i = p.tree i := by
  cases hx : p.blocks[k]?.bind (·.items[m]?) with
  | none =>
    unfold wrapItem
    rw [hx]
  | some x =>
    obtain ⟨r, hr⟩ := h.exists_ranked_wrapItem hx parallel
    refine h.induction (motive := fun i => (p.wrapItem k m parallel).tree i = p.tree i) ?_ hi
    intro i b hb ih
    have hlt := (Array.getElem?_eq_some_iff.1 hb).1
    have hsame : ∀ y ∈ b.items, (p.wrapItem k m parallel).itemTree y = p.itemTree y :=
      fun y hy => itemTree_congr fun j hj => ih j (List.mem_filterMap.2 ⟨y, hy, hj⟩)
    by_cases hk : k = i
    · subst hk
      have hitem : b.items[m]? = some x := by rwa [hb] at hx
      have hnew := getElem?_wrapItem hx parallel p.blocks.size
      have hold := getElem?_wrapItem hx parallel k
      rw [if_pos rfl] at hnew
      rw [if_neg (Nat.ne_of_lt hlt), if_pos rfl, hb] at hold
      have hwrapped : (p.wrapItem k m parallel).itemTree (.block p.blocks.size) = p.itemTree x :=
        (hr.tree_of_singleton hnew).trans (hsame x (List.mem_of_getElem? hitem))
      exact h.tree_congr hr hb hold rfl (mapM_set_congr hsame hitem hwrapped)
    · have hold := getElem?_wrapItem hx parallel i
      rw [if_neg (Nat.ne_of_lt hlt), if_neg hk, hb] at hold
      exact h.tree_congr hr hb hold rfl (mapM_congr_ok hsame)

end WrapItem

/-! ## Blocks in another order -/

section Permute

variable {σ : Equiv.Perm (Fin p.blocks.size)}

theorem getElem?_permute (i : Fin p.blocks.size) :
    (p.permute σ).blocks[(σ i : Nat)]? = some (p.blocks[i].redirect (permuted σ)) := by
  show (Array.ofFn _)[_]? = _
  rw [Array.getElem?_ofFn, dif_pos (σ i).isLt]
  exact congrArg (fun a : Fin _ => some (p.blocks[a].redirect _)) (σ.symm_apply_apply i)

/-- References of the permuted pipeline fall in the rank of the places that they come from. -/
theorem Ranked.exists_ranked_permute (h : p.Ranked rank) : ∃ r, (p.permute σ).Ranked r := by
  have hsize : (p.permute σ).blocks.size = p.blocks.size := Array.size_ofFn
  refine exists_ranked (fun i => rank (permuted σ.symm i)) ?_
  intro i b hb j hj
  have hi := (Array.getElem?_eq_some_iff.1 hb).1
  rw [hsize] at hi ⊢
  obtain ⟨i', hi'⟩ := σ.surjective ⟨i, hi⟩
  obtain rfl : (σ i' : Nat) = i := by rw [hi']
  rw [getElem?_permute] at hb
  obtain rfl := Option.some.inj hb
  rw [Block.references_redirect] at hj
  obtain ⟨j', hj', rfl⟩ := List.mem_map.1 hj
  obtain ⟨hlt, hfalls⟩ := h.falls i' _ (Array.getElem?_eq_getElem i'.isLt) j' hj'
  have hval := permuted_val σ ⟨j', hlt⟩
  refine ⟨?_, ?_⟩
  · rw [hval]
    exact (σ _).isLt
  · rw [hval, permuted_symm_val, permuted_symm_val]
    exact hfalls

/-- **Numbering.** Blocks can change places when their references follow. -/
theorem Ranked.tree_permute (h : p.Ranked rank) (i : Fin p.blocks.size) :
    (p.permute σ).tree (σ i) = p.tree i := by
  obtain ⟨r, hr⟩ := h.exists_ranked_permute (σ := σ)
  rw [← permuted_val]
  refine h.induction (motive := fun i => (p.permute σ).tree (permuted σ i) = p.tree i) ?_ i.isLt
  intro i b hb ih
  obtain ⟨hi, rfl⟩ := Array.getElem?_eq_some_iff.1 hb
  have hsame : (p.blocks[i].items.map (.redirect (permuted σ))).mapM (p.permute σ).itemTree =
      p.blocks[i].items.mapM p.itemTree := by
    rw [List.mapM_map]
    exact mapM_congr_ok fun y hy =>
      itemTree_redirect fun j hj => ih j (List.mem_filterMap.2 ⟨y, hy, hj⟩)
  have hnew := getElem?_permute (σ := σ) ⟨i, hi⟩
  rw [← permuted_val] at hnew
  exact h.tree_congr hr hb hnew rfl hsame

end Permute

/-- **Trees.** Where references between blocks stay in the table and have no cycle, every block has
a tree, without a group of one member. The trees stay the same when an item is moved to a block of
its own, and when the blocks are put in another order. -/
theorem tree_normal (p : Pipeline) (hrange : ∀ i j, p.Refers i j → j < p.blocks.size)
    (hacyclic : ∀ i, ¬Relation.TransGen p.Refers i i) :
    (∀ i < p.blocks.size, ∃ o, p.tree i = .ok o ∧ o.Compact) ∧
      (∀ k m parallel, ∀ i < p.blocks.size,
        (p.wrapItem k m parallel).tree i = p.tree i) ∧
      ∀ (σ : Equiv.Perm (Fin p.blocks.size)) (i : Fin p.blocks.size),
        (p.permute σ).tree (σ i) = p.tree i := by
  have hranked := ranked_reach hrange hacyclic
  exact ⟨fun i hi => hranked.exists_compact_tree hi, fun k m parallel i hi =>
    hranked.tree_wrapItem hi, fun σ i => hranked.tree_permute i⟩

/-- A pipeline with a block of one item that is used twice. -/
def twicePipeline : Pipeline where
  blocks :=
    #[⟨[.block 2, .block 2], true⟩,
      ⟨[.shell "make a" "make" ["a"], .shell "make b" "make" ["b"]], true⟩,
      ⟨[.block 1], false⟩]
  procedures := .empty
  declarations := .empty

/-- The only item of the last block is put into a second block around it, and the default block
takes the place of the last one. -/
theorem tree_normal_twicePipeline :
    (∀ i j, twicePipeline.Refers i j → j < twicePipeline.blocks.size) ∧
      (∀ i, ¬Relation.TransGen twicePipeline.Refers i i) ∧
      ∃ pair o, pair = .group true [.shell "make a", .shell "make b"] ∧
        o = .group true [pair, pair] ∧ o.Compact ∧ twicePipeline.tree 0 = .ok o ∧
        (twicePipeline.wrapItem 2 0 true).blocks.size = 4 ∧
        (twicePipeline.wrapItem 2 0 true).tree 0 = .ok o ∧
        (twicePipeline.permute (Equiv.swap ⟨0, by decide⟩ ⟨2, by decide⟩)).tree 2 = .ok o := by
  have hrange : ∀ i j, twicePipeline.Refers i j → j < twicePipeline.blocks.size := by
    have hall : ∀ b ∈ twicePipeline.blocks, ∀ j ∈ b.references,
        j < twicePipeline.blocks.size := by decide
    rintro i j ⟨b, hb, hj⟩
    exact hall b (Array.mem_of_getElem? hb) j hj
  have hacyclic := acyclic_of_rank (p := twicePipeline) (fun i => [2, 0, 1].getD i 0) (by decide)
  obtain ⟨htree, hwrap, hpermute⟩ := tree_normal twicePipeline hrange hacyclic
  obtain ⟨o, ho, hcompact⟩ := htree 0 (by decide)
  obtain rfl := Except.ok.inj (ho.symm.trans rfl)
  exact ⟨hrange, hacyclic, _, _, rfl, rfl, hcompact, ho, by decide,
    (hwrap 2 0 true 0 (by decide)).trans ho,
    (hpermute (Equiv.swap ⟨0, by decide⟩ ⟨2, by decide⟩) ⟨0, by decide⟩).trans ho⟩

end Pipeline

end Runbook
