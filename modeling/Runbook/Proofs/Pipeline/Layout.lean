import Mathlib.Data.List.Forall2
import Runbook.Proofs.Pipeline.Outline

/-!
# What stands between brackets

Between brackets stand commands and further pairs of brackets (`Element`). `Element.layout` says
which items and new blocks they become, `Element.outlines` what these run: in a parallel block every
pair and every command that runs anything is one item (`forall₂_layoutAll`), and whatever the
grouping is the commands are run in the order in which they stand there (`leavesAll_outlinesAll`).
-/

namespace Runbook

/-! ## Elements -/

/-- A complete command: its text and its statements. -/
structure Command where
  text : String
  statements : List Shell.Statement
  deriving DecidableEq, Repr

/-- The shell commands that a command becomes: one for each statement, or a single one for the whole
text when it has several statements and a lone bracket among them. -/
def Command.lines (c : Command) : List String :=
  if 1 < c.statements.length ∧ c.statements.any Shell.Statement.isBracket then [c.text]
  else c.statements.map Shell.Statement.text

/-- What stands between brackets: a command, or a pair of brackets and what stands between them. -/
inductive Element where
  | command (c : Command)
  | nested (b : Bracket) (inner : List Element)

namespace Element

mutual

/-- The commands of an element, in order. -/
def commands : Element → List Command
  | .command c => [c]
  | .nested _ inner => commandsAll inner

def commandsAll : List Element → List Command
  | [] => []
  | x :: xs => x.commands ++ commandsAll xs

end

mutual

/-- The pairs of brackets in an element, with what stands between them. -/
def pairs : Element → List (Bracket × List Element)
  | .command _ => []
  | .nested b inner => (b, inner) :: pairsAll inner

def pairsAll : List Element → List (Bracket × List Element)
  | [] => []
  | x :: xs => x.pairs ++ pairsAll xs

end

/-- Whether an element becomes an item at all: a command without statements does not. -/
def runs : Element → Bool
  | .command c => !c.statements.isEmpty
  | .nested _ _ => true

mutual

/-- What an element runs in a block that is parallel or not. -/
def outlines (parallel : Bool) : Element → List Outline
  | .command c =>
    if parallel ∧ 1 < c.lines.length then [.group false (c.lines.map .shell)]
    else c.lines.map .shell
  | .nested b inner => [.group b.isParallel (outlinesAll b.isParallel inner)]

def outlinesAll (parallel : Bool) : List Element → List Outline
  | [] => []
  | x :: xs => x.outlines parallel ++ outlinesAll parallel xs

end

end Element

/-! ## Places in the table -/

/-- Items for a block, and the table with the blocks they brought. -/
structure Layout where
  items : List Item
  table : Table

namespace Element

mutual

/-- What an element becomes in a block that is parallel or not. -/
def layout (parallel : Bool) (t : Table) : Element → Layout
  | .command c =>
    let x := Placement.ofCommand c.text c.statements parallel
    ⟨x.itemsIn t, x.addTo t⟩
  | .nested b inner =>
    let body := layoutAll b.isParallel t inner
    ⟨[.block body.table.size], body.table.push ⟨body.items, b.isParallel⟩⟩

def layoutAll (parallel : Bool) (t : Table) : List Element → Layout
  | [] => ⟨[], t⟩
  | x :: xs =>
    let first := x.layout parallel t
    let rest := layoutAll parallel first.table xs
    ⟨first.items ++ rest.items, rest.table⟩

end

end Element

/-- The blocks of the first table stand at the same places in the second one. -/
def Table.Keeps (t u : Table) : Prop :=
  ∀ (i : Nat) (b : Block), t[i]? = some b → u[i]? = some b

namespace Table.Keeps

variable {t u v : Table}

theorem refl (t : Table) : t.Keeps t :=
  fun _ _ h => h

theorem trans (h : t.Keeps u) (h' : u.Keeps v) : t.Keeps v :=
  fun i b hb => h' i b (h i b hb)

theorem push (t : Table) (b : Block) : t.Keeps (t.push b) :=
  fun _ _ h => Table.getElem?_push_of_some h b

theorem addTo (t : Table) (x : Placement) : t.Keeps (x.addTo t) := by
  cases x with
  | items xs => exact .refl t
  | wrapped b => exact .push t b

theorem size_le (h : t.Keeps u) : t.size ≤ u.size := by
  apply Nat.le_of_not_lt
  intro hlt
  have hkept := h u.size _ (Array.getElem?_eq_getElem hlt)
  exact Nat.lt_irrefl _ (Array.getElem?_eq_some_iff.1 hkept).1

end Table.Keeps

namespace Element

mutual

theorem keeps_layout : ∀ (x : Element) (parallel : Bool) (t : Table),
    t.Keeps (x.layout parallel t).table
  | .command c, parallel, t => by
    rw [layout]
    exact .addTo t _
  | .nested b inner, parallel, t => by
    rw [layout]
    exact (keeps_layoutAll inner b.isParallel t).trans (.push _ _)

theorem keeps_layoutAll : ∀ (xs : List Element) (parallel : Bool) (t : Table),
    t.Keeps (layoutAll parallel t xs).table
  | [], parallel, t => by
    rw [layoutAll]
    exact .refl t
  | x :: xs, parallel, t => by
    rw [layoutAll]
    exact (keeps_layout x parallel t).trans (keeps_layoutAll xs parallel _)

end

/-! ## Outlines of elements -/

variable {p : Pipeline} {n : Nat}

/-- How a command is placed, by the shell commands it becomes. -/
theorem ofCommand_cases (c : Command) (parallel : Bool) :
    (1 < c.statements.length ∧ c.lines = [c.text] ∧
        Placement.ofCommand c.text c.statements parallel =
          .items [.ofStatements c.text c.statements]) ∨
      c.lines = c.statements.map Shell.Statement.text ∧
        ((parallel = true ∧ 1 < c.statements.length ∧
            Placement.ofCommand c.text c.statements parallel =
              .wrapped ⟨c.statements.map .ofStatement, false⟩) ∨
          ¬(parallel = true ∧ 1 < c.statements.length) ∧
            Placement.ofCommand c.text c.statements parallel =
              .items (c.statements.map .ofStatement)) := by
  unfold Command.lines Placement.ofCommand
  by_cases hwhole : c.statements.length > 1 ∧ c.statements.any Shell.Statement.isBracket = true
  · exact .inl ⟨hwhole.1, if_pos hwhole, if_pos hwhole⟩
  · refine .inr ⟨if_neg hwhole, ?_⟩
    rw [if_neg hwhole]
    by_cases hwrapped : parallel = true ∧ c.statements.length > 1
    · exact .inl ⟨hwrapped.1, hwrapped.2, if_pos hwrapped⟩
    · exact .inr ⟨hwrapped, if_neg hwrapped⟩

theorem mapM_outline_ofStatement (f : Nat → Except Misuse Outline)
    (statements : List Shell.Statement) :
    (statements.map Item.ofStatement).mapM (Pipeline.itemOutlineWith f) =
      .ok ((statements.map Shell.Statement.text).map .shell) := by
  induction statements with
  | nil => rfl
  | cons s statements ih =>
    rw [List.map_cons, mapM_cons_ok]
    exact ⟨.shell s.text, _, rfl, ih, rfl⟩

/-- The items of a command run the shell commands it becomes. -/
theorem mapM_outline_command (c : Command) {parallel : Bool} {t : Table}
    (hkeeps : ((Element.command c).layout parallel t).table.Keeps p.blocks)
    (hsize : ((Element.command c).layout parallel t).table.size ≤ n) :
    ((Element.command c).layout parallel t).items.mapM
        (Pipeline.itemOutlineWith (p.outlineWithin n)) =
      .ok ((Element.command c).outlines parallel) := by
  rw [layout] at hkeeps hsize ⊢
  rw [outlines]
  rcases ofCommand_cases c parallel with ⟨-, hlines, hplaced⟩ |
    ⟨hlines, ⟨hparallel, hlength, hplaced⟩ | ⟨hsplit, hplaced⟩⟩
  · obtain ⟨head, words, haction⟩ := exists_action_ofStatements c.text c.statements
    rw [hplaced, hlines, if_neg (by simp)]
    show [Item.ofStatements c.text c.statements].mapM _ = _
    rw [mapM_cons_ok]
    exact ⟨.shell c.text, [], by rw [Pipeline.itemOutlineWith, haction], rfl, rfl⟩
  · rw [hplaced] at hkeeps hsize ⊢
    rw [hlines, List.length_map, if_pos ⟨hparallel, hlength⟩]
    replace hsize : t.size + 1 ≤ n := by simpa [Placement.addTo] using hsize
    obtain ⟨m, rfl⟩ : ∃ m, n = m + 1 := ⟨n - 1, by omega⟩
    have hb : p.blocks[t.size]? = some ⟨c.statements.map .ofStatement, false⟩ :=
      hkeeps t.size _ (by simp [Placement.addTo])
    show [Item.block t.size].mapM _ = _
    rw [mapM_cons_ok]
    refine ⟨.group false ((c.statements.map Shell.Statement.text).map .shell), [], ?_, rfl, rfl⟩
    show p.outlineWithin (m + 1) t.size = _
    rw [Pipeline.outlineWithin_succ hb, mapM_outline_ofStatement]
    rfl
  · rw [hplaced, hlines, List.length_map, if_neg hsplit]
    exact mapM_outline_ofStatement _ c.statements

mutual

/-- **Outlines.** The items of an element run what the element does, in every table that keeps their
blocks. -/
theorem mapM_outline_layout : ∀ (x : Element) {parallel : Bool} {t : Table} {n : Nat},
    (x.layout parallel t).table.Keeps p.blocks → (x.layout parallel t).table.size ≤ n →
    (x.layout parallel t).items.mapM (Pipeline.itemOutlineWith (p.outlineWithin n)) =
      .ok (x.outlines parallel)
  | .command c, parallel, t, n, hkeeps, hsize => mapM_outline_command c hkeeps hsize
  | .nested b inner, parallel, t, n, hkeeps, hsize => by
    rw [layout] at hkeeps hsize ⊢
    rw [outlines]
    generalize hbody : layoutAll b.isParallel t inner = body at hkeeps hsize ⊢
    replace hsize : body.table.size + 1 ≤ n := by simpa using hsize
    obtain ⟨m, rfl⟩ : ∃ m, n = m + 1 := ⟨n - 1, by omega⟩
    have hb : p.blocks[body.table.size]? = some ⟨body.items, b.isParallel⟩ :=
      hkeeps body.table.size _ (by simp)
    have hinner : (layoutAll b.isParallel t inner).items.mapM
        (Pipeline.itemOutlineWith (p.outlineWithin m)) = .ok (outlinesAll b.isParallel inner) :=
      mapM_outline_layoutAll inner (by rw [hbody]; exact (Table.Keeps.push _ _).trans hkeeps)
        (by rw [hbody]; omega)
    rw [hbody] at hinner
    show [Item.block body.table.size].mapM _ = _
    rw [mapM_cons_ok]
    refine ⟨.group b.isParallel (outlinesAll b.isParallel inner), [], ?_, rfl, rfl⟩
    show p.outlineWithin (m + 1) body.table.size = _
    rw [Pipeline.outlineWithin_succ hb, hinner]
    rfl

theorem mapM_outline_layoutAll : ∀ (xs : List Element) {parallel : Bool} {t : Table} {n : Nat},
    (layoutAll parallel t xs).table.Keeps p.blocks → (layoutAll parallel t xs).table.size ≤ n →
    (layoutAll parallel t xs).items.mapM (Pipeline.itemOutlineWith (p.outlineWithin n)) =
      .ok (outlinesAll parallel xs)
  | [], parallel, t, n, hkeeps, hsize => by
    rw [layoutAll, outlinesAll]
    rfl
  | x :: xs, parallel, t, n, hkeeps, hsize => by
    rw [layoutAll] at hkeeps hsize ⊢
    rw [outlinesAll]
    have hrest := keeps_layoutAll xs parallel (x.layout parallel t).table
    rw [List.mapM_append, mapM_outline_layout x (hrest.trans hkeeps)
      (Nat.le_trans hrest.size_le hsize), mapM_outline_layoutAll xs hkeeps hsize]
    rfl

end

/-! ## New blocks -/

/-- The block that a pair of brackets becomes in a table. -/
def blockOf (b : Bracket) (inner : List Element) (t : Table) : Block :=
  ⟨(layoutAll b.isParallel t inner).items, b.isParallel⟩

/-- A block comes from elements: it is one of their pairs of brackets, laid out in a part of the
table, or the statements of one of their commands. -/
def Origin (pairs : List (Bracket × List Element)) (commands : List Command) (u : Table)
    (block : Block) : Prop :=
  (∃ pair ∈ pairs, ∃ t, (layoutAll pair.1.isParallel t pair.2).table.Keeps u ∧
    block = blockOf pair.1 pair.2 t) ∨
  ∃ c ∈ commands, 1 < c.statements.length ∧ block = ⟨c.statements.map .ofStatement, false⟩

theorem Origin.mono {pairs pairs' : List (Bracket × List Element)}
    {commands commands' : List Command} {u v : Table} {block : Block}
    (h : Origin pairs commands u block) (hpairs : pairs ⊆ pairs')
    (hcommands : commands ⊆ commands') (hkeeps : u.Keeps v) : Origin pairs' commands' v block := by
  rcases h with ⟨pair, hpair, t, hlayout, hblock⟩ | ⟨c, hc, hblock⟩
  · exact .inl ⟨pair, hpairs hpair, t, hlayout.trans hkeeps, hblock⟩
  · exact .inr ⟨c, hcommands hc, hblock⟩

theorem getElem?_push_cases {t : Table} {b block : Block} {i : Nat}
    (h : (t.push b)[i]? = some block) : t[i]? = some block ∨ i = t.size ∧ block = b := by
  rw [Array.getElem?_push] at h
  split at h
  · next hi => exact .inr ⟨hi, (Option.some.inj h).symm⟩
  · exact .inl h

mutual

/-- **New blocks.** A block behind those that were there comes from the elements. -/
theorem origin_layout : ∀ (x : Element) {parallel : Bool} {t : Table} {i : Nat} {block : Block},
    t.size ≤ i → (x.layout parallel t).table[i]? = some block →
    Origin x.pairs x.commands (x.layout parallel t).table block
  | .command c, parallel, t, i, block, hi, hblock => by
    have hout : t[i]? = none := Array.getElem?_eq_none hi
    rw [layout] at hblock
    rw [commands]
    rcases ofCommand_cases c parallel with ⟨-, -, hplaced⟩ |
      ⟨-, ⟨-, hlength, hplaced⟩ | ⟨-, hplaced⟩⟩
    · rw [hplaced] at hblock
      cases hout.symm.trans hblock
    · rw [hplaced] at hblock
      rcases getElem?_push_cases hblock with hold | ⟨-, rfl⟩
      · cases hout.symm.trans hold
      · exact .inr ⟨c, List.mem_singleton_self c, hlength, rfl⟩
    · rw [hplaced] at hblock
      cases hout.symm.trans hblock
  | .nested b inner, parallel, t, i, block, hi, hblock => by
    rw [layout] at hblock ⊢
    rw [pairs, commands]
    rcases getElem?_push_cases hblock with hinner | ⟨-, rfl⟩
    · exact (origin_layoutAll inner hi hinner).mono (List.subset_cons_self _ _)
        (List.Subset.refl _) (.push _ _)
    · exact .inl ⟨(b, inner), List.mem_cons_self, t, .push _ _, rfl⟩

theorem origin_layoutAll : ∀ (xs : List Element) {parallel : Bool} {t : Table} {i : Nat}
    {block : Block}, t.size ≤ i → (layoutAll parallel t xs).table[i]? = some block →
    Origin (pairsAll xs) (commandsAll xs) (layoutAll parallel t xs).table block
  | [], parallel, t, i, block, hi, hblock => by
    rw [layoutAll] at hblock
    cases (Array.getElem?_eq_none hi).symm.trans hblock
  | x :: xs, parallel, t, i, block, hi, hblock => by
    rw [layoutAll] at hblock ⊢
    rw [pairsAll, commandsAll]
    by_cases hfirst : i < (x.layout parallel t).table.size
    · obtain ⟨block', hblock'⟩ : ∃ block', (x.layout parallel t).table[i]? = some block' :=
        ⟨_, Array.getElem?_eq_getElem hfirst⟩
      have hkeeps := keeps_layoutAll xs parallel (x.layout parallel t).table
      obtain rfl := Option.some.inj ((hkeeps i block' hblock').symm.trans hblock)
      exact (origin_layout x hi hblock').mono (List.subset_append_left _ _)
        (List.subset_append_left _ _) hkeeps
    · exact (origin_layoutAll xs (Nat.le_of_not_lt hfirst) hblock).mono
        (List.subset_append_right _ _) (List.subset_append_right _ _) (.refl _)

end

/-! ## Items of parallel blocks -/

theorem layout_of_not_runs {x : Element} (h : x.runs = false) (parallel : Bool) (t : Table) :
    x.layout parallel t = ⟨[], t⟩ := by
  cases x with
  | nested b inner => cases h
  | command c =>
    obtain ⟨text, statements⟩ := c
    have hnil : statements = [] := by simpa [runs] using h
    subst hnil
    rw [layout]
    simp [Placement.ofCommand, Placement.itemsIn, Placement.addTo]

/-- In a parallel block an element becomes one item. -/
theorem exists_item_of_runs {x : Element} (h : x.runs = true) (t : Table) :
    ∃ item o, (x.layout true t).items = [item] ∧ x.outlines true = [o] := by
  cases x with
  | nested b inner =>
    rw [layout, outlines]
    exact ⟨_, _, rfl, rfl⟩
  | command c =>
    rw [layout, outlines]
    rcases ofCommand_cases c true with ⟨-, hlines, hplaced⟩ |
      ⟨hlines, ⟨hparallel, hlength, hplaced⟩ | ⟨hsplit, hplaced⟩⟩
    · rw [hplaced, hlines]
      exact ⟨_, _, rfl, rfl⟩
    · rw [hplaced, hlines, List.length_map, if_pos ⟨hparallel, hlength⟩]
      exact ⟨_, _, rfl, rfl⟩
    · obtain ⟨s, hs⟩ : ∃ s, c.statements = [s] := by
        rw [← List.length_eq_one_iff]
        have hpos : 0 < c.statements.length := List.length_pos_iff.2 (by simpa [runs] using h)
        have hle : ¬1 < c.statements.length := fun hlt => hsplit ⟨rfl, hlt⟩
        omega
      rw [hplaced, hlines, hs]
      exact ⟨_, _, rfl, rfl⟩

/-- **Parallel blocks.** The items of a parallel block are one for each element that runs anything,
and run what it does. -/
theorem forall₂_layoutAll (xs : List Element) {t : Table}
    (hkeeps : (layoutAll true t xs).table.Keeps p.blocks)
    (hsize : (layoutAll true t xs).table.size ≤ n) :
    List.Forall₂ (fun item x => ∃ o, outlines true x = [o] ∧
        Pipeline.itemOutlineWith (p.outlineWithin n) item = .ok o)
      (layoutAll true t xs).items (xs.filter runs) := by
  induction xs generalizing t with
  | nil =>
    rw [layoutAll]
    exact .nil
  | cons x xs ih =>
    rw [layoutAll] at hkeeps hsize ⊢
    have hrest := keeps_layoutAll xs true (x.layout true t).table
    cases hruns : x.runs with
    | true =>
      obtain ⟨item, o, hitem, ho⟩ := exists_item_of_runs hruns t
      have houtline := mapM_outline_layout x (hrest.trans hkeeps)
        (Nat.le_trans hrest.size_le hsize)
      rw [hitem, ho, mapM_cons_ok] at houtline
      obtain ⟨o', os, ho', -, heq⟩ := houtline
      obtain ⟨rfl, -⟩ := List.cons_eq_cons.1 heq
      rw [List.filter_cons_of_pos hruns, hitem]
      exact .cons ⟨o, ho, ho'⟩ (ih hkeeps hsize)
    | false =>
      rw [List.filter_cons_of_neg (by simp [hruns])]
      rw [layout_of_not_runs hruns] at hkeeps hsize ⊢
      exact ih hkeeps hsize

end Element

/-! ## Commands in order -/

namespace Outline

mutual

/-- The commands and calls in an outline, in order. -/
def leaves : Outline → List Outline
  | .shell line => [.shell line]
  | .call name args => [.call name args]
  | .group _ members => leavesAll members

def leavesAll : List Outline → List Outline
  | [] => []
  | x :: xs => x.leaves ++ leavesAll xs

end

theorem leavesAll_append (xs ys : List Outline) :
    leavesAll (xs ++ ys) = leavesAll xs ++ leavesAll ys := by
  induction xs with
  | nil => rfl
  | cons x xs ih => rw [List.cons_append, leavesAll, leavesAll, ih, List.append_assoc]

theorem leavesAll_shell (lines : List String) :
    leavesAll (lines.map .shell) = lines.map .shell := by
  induction lines with
  | nil => rfl
  | cons line lines ih => rw [List.map_cons, leavesAll, ih, leaves, List.singleton_append]

end Outline

namespace Element

mutual

/-- An element runs the shell commands that its commands become, in order. -/
theorem leavesAll_outlines : ∀ (x : Element) (parallel : Bool),
    Outline.leavesAll (x.outlines parallel) = (x.commands.flatMap Command.lines).map .shell
  | .command c, parallel => by
    rw [outlines, commands, List.flatMap_singleton]
    split
    · rw [Outline.leavesAll, Outline.leavesAll, Outline.leaves, List.append_nil,
        Outline.leavesAll_shell]
    · exact Outline.leavesAll_shell c.lines
  | .nested b inner, parallel => by
    rw [outlines, commands, Outline.leavesAll, Outline.leavesAll, Outline.leaves, List.append_nil,
      leavesAll_outlinesAll inner]

/-- **Order.** Elements run the shell commands that their commands become, in order. -/
theorem leavesAll_outlinesAll : ∀ (xs : List Element) (parallel : Bool),
    Outline.leavesAll (outlinesAll parallel xs) =
      ((commandsAll xs).flatMap Command.lines).map .shell
  | [], parallel => by
    rw [outlinesAll, commandsAll]
    rfl
  | x :: xs, parallel => by
    rw [outlinesAll, commandsAll, Outline.leavesAll_append, leavesAll_outlines x,
      leavesAll_outlinesAll xs, List.flatMap_append, List.map_append]

end

end Element

end Runbook
