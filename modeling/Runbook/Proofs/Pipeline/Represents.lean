import Runbook.Proofs.Pipeline.Outline
import Runbook.Proofs.Pipeline.Promotion

/-!
# Items that stand for outlines

`Represents` says that an item stands for an outline in a table whose calls are still to be
promoted; it only looks at blocks behind the default one, so it lasts when the table grows and when
the default block is filled. In the promoted pipeline such an item has the outline it stands for
(`itemOutline_of_represents`).
-/

namespace Runbook

/-! ## Tables that grow -/

/-- The blocks behind the default one keep their places. -/
def Table.Extends (t t' : Table) : Prop :=
  ∀ (i : Nat) (b : Block), 1 ≤ i → t[i]? = some b → t'[i]? = some b

theorem Table.Extends.refl (t : Table) : t.Extends t :=
  fun _ _ _ h => h

theorem Table.Extends.trans {t t' t'' : Table} (h : t.Extends t') (h' : t'.Extends t'') :
    t.Extends t'' :=
  fun i b hi hb => h' i b hi (h i b hi hb)

theorem Table.Extends.push (t : Table) (b : Block) : t.Extends (t.push b) :=
  fun _ _ _ h => Table.getElem?_push_of_some h b

theorem Table.Extends.modifyDefault (t : Table) (f : Block → Block) :
    t.Extends (t.modify Pipeline.defaultIndex f) := by
  intro i b hi hb
  rw [Array.getElem?_modify, if_neg (by unfold Pipeline.defaultIndex; omega)]
  exact hb

/-! ## Representation -/

mutual

/-- In a table the item, once promoted, stands for the outline. -/
def Represents (known : String → Bool) (t : Table) : Outline → Item → Prop
  | .shell line, x => ∃ head words, (x.promoted known).action = .shell line head words
  | .call name args, x => (x.promoted known).action = .call name args
  | .group parallel members, x =>
    ∃ i b, x.action = .block i ∧ 1 ≤ i ∧ t[i]? = some b ∧ b.parallel = parallel ∧
      RepresentsAll known t members b.items

/-- The items, one by one, stand for the outlines. -/
def RepresentsAll (known : String → Bool) (t : Table) : List Outline → List Item → Prop
  | [], xs => xs = []
  | o :: os, xs => ∃ y ys, xs = y :: ys ∧ Represents known t o y ∧ RepresentsAll known t os ys

end

section Representation

variable {known : String → Bool} {t t' : Table}

mutual

/-- Items go on to stand for outlines when the table grows. -/
theorem Represents.mono (h : t.Extends t') : ∀ {o : Outline} {x : Item}, Represents known t o x →
    Represents known t' o x
  | .shell _, _, hx => by
    rw [Represents] at hx ⊢
    exact hx
  | .call _ _, _, hx => by
    rw [Represents] at hx ⊢
    exact hx
  | .group _ members, _, hx => by
    rw [Represents] at hx ⊢
    obtain ⟨i, b, haction, hi, hb, hparallel, hmembers⟩ := hx
    exact ⟨i, b, haction, hi, h i b hi hb, hparallel, hmembers.mono h⟩

theorem RepresentsAll.mono (h : t.Extends t') : ∀ {os : List Outline} {xs : List Item},
    RepresentsAll known t os xs → RepresentsAll known t' os xs
  | [], _, hxs => by
    rw [RepresentsAll] at hxs ⊢
    exact hxs
  | _ :: _, _, hxs => by
    rw [RepresentsAll] at hxs ⊢
    obtain ⟨y, ys, rfl, hy, hys⟩ := hxs
    exact ⟨y, ys, rfl, hy.mono h, hys.mono h⟩

end

mutual

/-- In the promoted pipeline an item has the outline it stands for. -/
theorem itemOutline_of_represents {q : Pipeline} {rank : Nat → Nat} (hrank : q.Ranked rank)
    (hq : q.blocks = t.map (Block.promoted known)) : ∀ {o : Outline} {x : Item},
      Represents known t o x → q.itemOutline (x.promoted known) = .ok o
  | .shell line, x, hx => by
    rw [Represents] at hx
    obtain ⟨head, words, haction⟩ := hx
    unfold Pipeline.itemOutline Pipeline.itemOutlineWith
    rw [haction]
  | .call name args, x, hx => by
    rw [Represents] at hx
    unfold Pipeline.itemOutline Pipeline.itemOutlineWith
    rw [hx]
  | .group parallel members, x, hx => by
    rw [Represents] at hx
    obtain ⟨i, b, haction, -, hb, hparallel, hmembers⟩ := hx
    have hget : q.blocks[i]? = some (b.promoted known) := by
      rw [hq, Array.getElem?_map, hb]
      rfl
    have hitems := mapM_itemOutline_of_represents hrank hq hmembers
    rw [promoted_block haction]
    unfold Pipeline.itemOutline Pipeline.itemOutlineWith
    rw [haction]
    show q.outline i = _
    rw [hrank.outline_eq hget]
    show ((b.items.map (Item.promoted known)).mapM q.itemOutline).map _ = _
    rw [hitems, ← hparallel]
    rfl

theorem mapM_itemOutline_of_represents {q : Pipeline} {rank : Nat → Nat} (hrank : q.Ranked rank)
    (hq : q.blocks = t.map (Block.promoted known)) : ∀ {os : List Outline} {xs : List Item},
      RepresentsAll known t os xs → (xs.map (Item.promoted known)).mapM q.itemOutline = .ok os
  | [], xs, hxs => by
    rw [RepresentsAll] at hxs
    rw [hxs]
    rfl
  | o :: os, xs, hxs => by
    rw [RepresentsAll] at hxs
    obtain ⟨y, ys, rfl, hy, hys⟩ := hxs
    rw [List.map_cons, List.mapM_cons, itemOutline_of_represents hrank hq hy,
      mapM_itemOutline_of_represents hrank hq hys]
    rfl

end

end Representation

end Runbook
