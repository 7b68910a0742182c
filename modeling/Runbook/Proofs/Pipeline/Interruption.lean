import Runbook.Proofs.Pipeline.Repetition
import Runbook.Proofs.Pipeline.Rewriting

/-!
# A promotion that stops

A promotion stops at the first item, block by block, that gives an option twice. Everything before
this item is promoted by then, and the item itself and everything behind it is as before
(`Pipeline.StopsAt`). A second promotion passes over the calls of the first one, finds nothing else
before the item, and stops there again (`stopsAt_of_check`).
-/

namespace Runbook

/-! ## Promotion up to an error -/

/-- A table cut at an item: the blocks before, the block with the item, and the blocks behind. -/
structure Cut where
  before : List Block
  parallel : Bool
  passed : List Item
  item : Item
  rest : List Item
  behind : List Block

namespace Cut

def blocks (s : Cut) : List Block :=
  s.before ++ ⟨s.passed ++ s.item :: s.rest, s.parallel⟩ :: s.behind

/-- What comes before the item is promoted. -/
def promoted (known : String → Bool) (s : Cut) : Cut :=
  { s with before := s.before.map (.promoted known), passed := s.passed.map (.promoted known) }

/-- The item is the first one for which promotion fails. -/
structure Fails (known : String → Bool) (e : DuplicatedOption) (s : Cut) : Prop where
  before : ∀ b ∈ s.before, b.Settled known
  passed : ∀ x ∈ s.passed, x.Settled known
  item : s.item.promote known = .error e

end Cut

section Sweeps

variable {known : String → Bool} {e : DuplicatedOption} {xs : List Item} {bs : List Block} {s : Cut}

theorem exists_of_promoteItems (h : (promoteItems known xs).error = some e) :
    ∃ passed x rest, xs = passed ++ x :: rest ∧ (∀ y ∈ passed, y.Settled known) ∧
      x.promote known = .error e ∧
      (promoteItems known xs).value = passed.map (.promoted known) ++ x :: rest := by
  induction xs with
  | nil => cases h
  | cons x xs ih =>
    unfold promoteItems at h ⊢
    cases hx : x.promote known with
    | error e' =>
      rw [hx] at h
      obtain rfl := Option.some.inj h
      exact ⟨[], x, xs, rfl, by simp, hx, rfl⟩
    | ok y =>
      have herror : (promoteItems known xs).error = some e := by
        rw [hx] at h
        cases y <;> exact h
      obtain ⟨passed, x', rest, rfl, hpassed, hx', hvalue⟩ := ih herror
      refine ⟨x :: passed, x', rest, rfl, List.forall_mem_cons.2 ⟨⟨y, hx⟩, hpassed⟩, hx', ?_⟩
      rw [List.map_cons, List.cons_append, ← hvalue, Item.promoted, hx]
      cases y <;> rfl

theorem exists_of_promoteBlocks (h : (promoteBlocks known bs).error = some e) :
    ∃ s : Cut, s.blocks = bs ∧ s.Fails known e ∧
      (promoteBlocks known bs).value = (s.promoted known).blocks := by
  induction bs with
  | nil => cases h
  | cons b bs ih =>
    unfold promoteBlocks at h ⊢
    dsimp only at h ⊢
    cases hitems : (promoteItems known b.items).error with
    | some e' =>
      rw [hitems] at h
      obtain rfl := Option.some.inj h
      obtain ⟨passed, x, rest, hb, hpassed, hx, hvalue⟩ := exists_of_promoteItems hitems
      refine ⟨⟨[], b.parallel, passed, x, rest, bs⟩, ?_, ⟨by simp, hpassed, hx⟩, ?_⟩
      · simp [Cut.blocks, ← hb]
      · simp [Cut.blocks, Cut.promoted, hvalue]
    | none =>
      rw [hitems] at h
      obtain ⟨s, rfl, hs, hvalue⟩ := ih h
      have hsettled := settled_of_promoteItems hitems
      refine ⟨{ s with before := b :: s.before }, rfl,
        ⟨List.forall_mem_cons.2 ⟨hsettled, hs.before⟩, hs.passed, hs.item⟩, ?_⟩
      simp only [hvalue, (promoteItems_of_settled hsettled).1]
      rfl

/-- Items that promotion leaves alone are passed over. -/
theorem promoteItems_append {ys : List Item} (h : ∀ y ∈ ys, y.promote known = .ok none) :
    promoteItems known (ys ++ xs) =
      { promoteItems known xs with value := ys ++ (promoteItems known xs).value } := by
  induction ys with
  | nil => rfl
  | cons y ys ih =>
    obtain ⟨hy, hys⟩ := List.forall_mem_cons.1 h
    rw [List.cons_append, promoteItems, hy, ih hys]
    rfl

theorem promoteBlocks_append {cs : List Block}
    (h : ∀ c ∈ cs, ∀ y ∈ c.items, y.promote known = .ok none) :
    promoteBlocks known (cs ++ bs) =
      { promoteBlocks known bs with value := cs ++ (promoteBlocks known bs).value } := by
  induction cs with
  | nil => rfl
  | cons c cs ih =>
    obtain ⟨hc, hcs⟩ := List.forall_mem_cons.1 h
    have hitems : promoteItems known (c.items ++ []) = ⟨c.items ++ [], [], none⟩ :=
      promoteItems_append hc
    rw [List.append_nil] at hitems
    rw [List.cons_append, promoteBlocks, ih hcs, hitems]
    simp

/-- Where a promotion has stopped, the next one stops as well, and finds nothing before it. -/
theorem Cut.Fails.promoteBlocks_promoted (h : s.Fails known e) :
    promoteBlocks known (s.promoted known).blocks = ⟨(s.promoted known).blocks, [], some e⟩ := by
  have hbefore : ∀ b ∈ s.before.map (Block.promoted known), ∀ x ∈ b.items,
      x.promote known = .ok none := by
    intro b hb
    obtain ⟨b', hb', rfl⟩ := List.mem_map.1 hb
    exact (h.before b' hb').promote_eq
  have hpassed : ∀ x ∈ s.passed.map (Item.promoted known), x.promote known = .ok none := by
    intro x hx
    obtain ⟨x', hx', rfl⟩ := List.mem_map.1 hx
    exact Item.promote_promoted (h.passed x' hx')
  have hitems : promoteItems known (s.passed.map (Item.promoted known) ++ s.item :: s.rest) =
      ⟨s.passed.map (Item.promoted known) ++ s.item :: s.rest, [], some e⟩ := by
    rw [promoteItems_append hpassed, promoteItems, h.item]
  unfold Cut.promoted Cut.blocks
  rw [promoteBlocks_append hbefore, promoteBlocks, hitems]

end Sweeps

/-! ## Places -/

/-- The item at a place of the table. -/
def Table.item? (t : Table) (i j : Nat) : Option Item :=
  t[i]?.bind (·.items[j]?)

/-- The place `i`, `j` of a table comes before the place `i'`, `j'`. -/
def ComesBefore (i j i' j' : Nat) : Prop :=
  i < i' ∨ i = i' ∧ j < j'

namespace Cut

variable {known : String → Bool} {e : DuplicatedOption} {s : Cut} {i j : Nat} {x : Item}

/-- The item of the cut comes after the place. -/
def IsBehind (s : Cut) (i j : Nat) : Prop :=
  ComesBefore i j s.before.length s.passed.length

theorem getElem?_blocks (s : Cut) (i : Nat) : s.blocks[i]? =
    if i < s.before.length then s.before[i]?
    else if i = s.before.length then some ⟨s.passed ++ s.item :: s.rest, s.parallel⟩
    else s.behind[i - s.before.length - 1]? := by
  unfold blocks
  rw [List.getElem?_append]
  split_ifs with hbefore hhere
  · rfl
  · rw [hhere, Nat.sub_self]
    rfl
  · rw [List.getElem?_cons, if_neg (by omega)]

theorem getElem?_blocks_promoted (known : String → Bool) (s : Cut) (i : Nat) :
    (s.promoted known).blocks[i]? =
      if i < s.before.length then s.before[i]?.map (.promoted known)
      else if i = s.before.length then
        some ⟨s.passed.map (.promoted known) ++ s.item :: s.rest, s.parallel⟩
      else s.behind[i - s.before.length - 1]? := by
  rw [getElem?_blocks]
  simp only [promoted, List.length_map, List.getElem?_map]

theorem item?_self (s : Cut) :
    Table.item? s.blocks.toArray s.before.length s.passed.length = some s.item := by
  simp [Table.item?, getElem?_blocks]

/-- Before the item of the cut everything is promoted. -/
theorem item?_promoted (h : s.IsBehind i j) :
    Table.item? (s.promoted known).blocks.toArray i j =
      (Table.item? s.blocks.toArray i j).map (.promoted known) := by
  unfold Table.item?
  rw [List.getElem?_toArray, List.getElem?_toArray, getElem?_blocks_promoted, getElem?_blocks]
  rcases h with hbefore | ⟨rfl, hpassed⟩
  · rw [if_pos hbefore, if_pos hbefore]
    cases s.before[i]? <;> simp [Block.promoted]
  · rw [if_neg (Nat.lt_irrefl _), if_neg (Nat.lt_irrefl _), if_pos rfl, if_pos rfl]
    simp [List.getElem?_append_left, hpassed]

/-- From the item of the cut on nothing changes. -/
theorem item?_kept (h : ¬s.IsBehind i j) :
    Table.item? (s.promoted known).blocks.toArray i j = Table.item? s.blocks.toArray i j := by
  unfold IsBehind ComesBefore at h
  unfold Table.item?
  rw [List.getElem?_toArray, List.getElem?_toArray, getElem?_blocks_promoted, getElem?_blocks]
  rw [if_neg fun hbefore => h (.inl hbefore), if_neg fun hbefore => h (.inl hbefore)]
  split_ifs with hhere
  · have hj : s.passed.length ≤ j := Nat.not_lt.1 fun hj => h (.inr ⟨hhere, hj⟩)
    simp [List.getElem?_append_right, hj]
  · rfl

/-- For the items before that of the cut promotion does not fail. -/
theorem Fails.settled (h : s.Fails known e) (hbehind : s.IsBehind i j)
    (hx : Table.item? s.blocks.toArray i j = some x) : x.Settled known := by
  unfold Table.item? at hx
  rw [List.getElem?_toArray, getElem?_blocks] at hx
  rcases hbehind with hbefore | ⟨rfl, hpassed⟩
  · rw [if_pos hbefore] at hx
    obtain ⟨b, hb, hx⟩ := Option.bind_eq_some_iff.1 hx
    exact h.before b (List.mem_of_getElem? hb) x (List.mem_of_getElem? hx)
  · rw [if_neg (Nat.lt_irrefl _), if_pos rfl] at hx
    replace hx : (s.passed ++ s.item :: s.rest)[j]? = some x := hx
    rw [List.getElem?_append_left hpassed] at hx
    exact h.passed x (List.mem_of_getElem? hx)

/-- Promotion keeps the kinds of the blocks and the numbers of their items. -/
theorem shape_promoted {b b' : Block} (hb : s.blocks[i]? = some b)
    (hb' : (s.promoted known).blocks[i]? = some b') :
    b'.parallel = b.parallel ∧ b'.items.length = b.items.length := by
  rw [getElem?_blocks] at hb
  rw [getElem?_blocks_promoted] at hb'
  split_ifs at hb hb'
  · rw [hb] at hb'
    obtain rfl := Option.some.inj hb'
    exact ⟨rfl, List.length_map _⟩
  · obtain rfl := Option.some.inj hb
    obtain rfl := Option.some.inj hb'
    simp
  · obtain rfl := Option.some.inj (hb.symm.trans hb')
    exact ⟨rfl, rfl⟩

end Cut

namespace Pipeline

variable {p : Pipeline} {e : DuplicatedOption}

/-- The pipeline `q` is what a promotion of `p` leaves that stops with an error at the item at the
place `i`, `j`, the first one for which promotion fails. -/
structure StopsAt (p q : Pipeline) (e : DuplicatedOption) (i j : Nat) : Prop where
  procedures : q.procedures = p.procedures
  declarations : q.declarations = p.declarations
  size : q.blocks.size = p.blocks.size
  shape : ∀ (k : Nat) (b b' : Block), p.blocks[k]? = some b → q.blocks[k]? = some b' →
    b'.parallel = b.parallel ∧ b'.items.length = b.items.length
  /-- An item before is the call it stands for, or stands for none and is left alone. -/
  before : ∀ k m x, ComesBefore k m i j → Table.item? p.blocks k m = some x →
    ∃ y, Table.item? q.blocks k m = some y ∧ (x.Becomes p.procedures.contains y ∨
      y = x ∧ x.promote p.procedures.contains = .ok none)
  item : ∃ x, Table.item? p.blocks i j = some x ∧ x.promote p.procedures.contains = .error e
  kept : ∀ k m, ¬ComesBefore k m i j → Table.item? q.blocks k m = Table.item? p.blocks k m

theorem error_of_check (h : p.check.2.result = .error e) : p.promote.error = some e := by
  unfold check promoteCount at h
  cases herror : p.promote.error with
  | none => simp [herror, Except.bind] at h
  | some e' =>
    simp only [herror] at h
    obtain rfl := Except.error.inj h
    rfl

/-- A check that fails has stopped at a cut of the table. -/
theorem exists_cut_of_check (h : p.check.2.result = .error e) :
    ∃ s : Cut, s.Fails p.procedures.contains e ∧ p.blocks = s.blocks.toArray ∧
      p.check.1 = { p with blocks := (s.promoted p.procedures.contains).blocks.toArray } := by
  obtain ⟨s, hs, hfails, hvalue⟩ := exists_of_promoteBlocks (error_of_check h)
  refine ⟨s, hfails, by rw [hs, Array.toArray_toList], ?_⟩
  show ({ p with blocks := (promoteBlocks _ p.blocks.toList).value.toArray } : Pipeline) = _
  rw [hvalue]

theorem stopsAt_cut {s : Cut} (h : s.Fails p.procedures.contains e)
    (hblocks : p.blocks = s.blocks.toArray) :
    p.StopsAt { p with blocks := (s.promoted p.procedures.contains).blocks.toArray } e
      s.before.length s.passed.length where
  procedures := rfl
  declarations := rfl
  size := by simp [hblocks, Cut.blocks, Cut.promoted]
  shape := by
    intro k b b' hb hb'
    rw [hblocks, List.getElem?_toArray] at hb
    exact Cut.shape_promoted hb (by rwa [List.getElem?_toArray] at hb')
  before := by
    intro k m x hbehind hx
    rw [hblocks] at hx
    refine ⟨x.promoted p.procedures.contains, ?_, Item.promoted_cases (h.settled hbehind hx)⟩
    rw [Cut.item?_promoted hbehind, hx]
    rfl
  item := ⟨s.item, by rw [hblocks]; exact s.item?_self, h.item⟩
  kept := by
    intro k m hbehind
    rw [hblocks]
    exact Cut.item?_kept hbehind

/-- **A check that fails.** It has stopped at the first item that repeats an option, and the error
names this item's command word, the option and the line. The items before are promoted and all
else is as it was; and the same check once more finds the same error and changes nothing. -/
theorem stopsAt_of_check (h : p.check.2.result = .error e) :
    (∃ i j label line head words name, p.StopsAt p.check.1 e i j ∧
      Table.item? p.blocks i j = some ⟨label, .shell line head words⟩ ∧
      p.procedures.contains head = true ∧ Repeats words name ∧ e = ⟨head, name, line⟩) ∧
    p.check.1.check = (p.check.1, ⟨[], .error e⟩) := by
  obtain ⟨s, hfails, hblocks, hcheck⟩ := exists_cut_of_check h
  have hstops := stopsAt_cut hfails hblocks
  refine ⟨?_, ?_⟩
  · obtain ⟨x, hx, herror⟩ := hstops.item
    obtain ⟨line, head, words, name, haction, hknown, hrepeats, rfl⟩ :=
      Item.promote_eq_error_iff.1 herror
    obtain ⟨label, action⟩ := x
    obtain rfl : action = .shell line head words := haction
    exact ⟨_, _, label, line, head, words, name, hcheck ▸ hstops, hx, hknown, hrepeats, rfl⟩
  · rw [hcheck]
    unfold check promoteCount promote
    dsimp only
    rw [hfails.promoteBlocks_promoted]
    rfl

/-- Calls and other commands around one that repeats an option. -/
def repeatingPipeline : Pipeline where
  blocks := #[⟨[.ofLine "build target=release", .block 1], true⟩,
    ⟨[.ofLine "build", .ofLine "build fast", .ofLine "build a=1 a=2", .ofLine "build b=1"], false⟩,
    ⟨[.ofLine "build"], false⟩]
  procedures := .ofList [("build", ⟨"build", 1, []⟩)]
  declarations := .empty

theorem stopsAt_of_check_repeatingPipeline :
    repeatingPipeline.check.2.result = .error ⟨"build", "a", "build a=1 a=2"⟩ ∧
      (∃ i j label line head words name,
        repeatingPipeline.StopsAt repeatingPipeline.check.1 ⟨"build", "a", "build a=1 a=2"⟩ i j ∧
        Table.item? repeatingPipeline.blocks i j = some ⟨label, .shell line head words⟩ ∧
        repeatingPipeline.procedures.contains head = true ∧ Repeats words name ∧
        (⟨"build", "a", "build a=1 a=2"⟩ : DuplicatedOption) = ⟨head, name, line⟩) ∧
      repeatingPipeline.check.1.check =
        (repeatingPipeline.check.1, ⟨[], .error ⟨"build", "a", "build a=1 a=2"⟩⟩) := by
  have hcheck : repeatingPipeline.check.2.result = .error ⟨"build", "a", "build a=1 a=2"⟩ := by
    decide +kernel
  exact ⟨hcheck, stopsAt_of_check hcheck⟩

end Pipeline

end Runbook
