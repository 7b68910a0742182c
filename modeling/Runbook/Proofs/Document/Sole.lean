import Runbook.Proofs.Document.Closing
import Runbook.Proofs.Document.Provenance
import Runbook.Proofs.Document.RoundTrip

/-!
# Blocks that run a single command

A block whose tree is a command has one item: the command, which no check promotes, or a block that
runs the command alone (`Pipeline.Ranked.exists_item_of_shell`). Blocks of short items run no
command of full length (`Pipeline.IsForest.not_shell_of_short`), so a text that is read as a block
of the command takes in all of its lines (`Ending.readsBack_of_block`).
-/

namespace Runbook

open Document

/-! ## Trees that are commands -/

theorem Outline.exists_of_simplify {parallel : Bool} {members : List Outline} {line : String}
    (h : (Outline.group parallel members).simplify = .shell line) :
    ∃ o, members = [o] ∧ o.simplify = .shell line := by
  rw [simplify, simplifyAll_eq_map] at h
  split at h
  · next x hx =>
    obtain ⟨o, rfl, rfl⟩ := List.map_eq_singleton_iff.1 hx
    exact ⟨o, rfl, h⟩
  · cases h

/-- An item that is a command, which promotion leaves alone. -/
def Item.IsCommand (known : String → Bool) (line : String) (x : Item) : Prop :=
  (∃ head words, x.action = .shell line head words) ∧ ∀ y, x.promote known ≠ .ok (some y)

theorem Item.IsCommand.promote_eq {known : String → Bool} {line : String} {x : Item}
    (h : x.IsCommand known line) (hsettled : ∃ y, x.promote known = .ok y) :
    x.promote known = .ok none := by
  obtain ⟨y, hy⟩ := hsettled
  cases y with
  | none => exact hy
  | some y => exact absurd hy (h.2 y)

namespace Pipeline

variable {q : Pipeline} {rank : Nat → Nat} {known : String → Bool} {line : String}

/-- An item that runs a single command is the command, or refers to a block that runs it. -/
theorem isCommand_or_block_of_shell {x : Item} {o : Outline}
    (ho : q.itemOutline (x.promoted known) = .ok o) (hline : o.simplify = .shell line) :
    x.IsCommand known line ∨ ∃ i, x.action = .block i ∧ q.outline i = .ok o := by
  unfold Item.promoted at ho
  split at ho
  · next y hpromote =>
    obtain ⟨name, args, rfl, -, -⟩ := exists_call_of_promote hpromote
    obtain rfl := Except.ok.inj ho
    rw [Outline.simplify] at hline
    cases hline
  · next hpromote =>
    unfold itemOutline itemOutlineWith at ho
    split at ho
    · next line' head words haction =>
      obtain rfl := Except.ok.inj ho
      rw [Outline.simplify] at hline
      obtain rfl := Outline.shell.inj hline
      exact .inl ⟨⟨head, words, haction⟩, hpromote⟩
    · next name args haction =>
      obtain rfl := Except.ok.inj ho
      rw [Outline.simplify] at hline
      cases hline
    · next i haction => exact .inr ⟨i, haction, ho⟩

/-- An item that runs nothing but a command: the command, which promotion leaves alone, or a
reference to a block that runs it. -/
def ItemRuns (q : Pipeline) (known : String → Bool) (line : String) (x : Item) : Prop :=
  x.IsCommand known line ∨ ∃ i o, x.action = .block i ∧ q.outline i = .ok o ∧
    o.simplify = .shell line

theorem ItemRuns.eq_of_shell {x : Item} (h : q.ItemRuns known line x) {l head : String}
    {words : List String} (haction : x.action = .shell l head words) : l = line := by
  rcases h with ⟨⟨head', words', haction'⟩, -⟩ | ⟨i, o, haction', -⟩
  · exact (Action.shell.inj (haction.symm.trans haction')).1
  · cases haction.symm.trans haction'

theorem Ranked.exists_item_of_shell (hrank : q.Ranked rank) {b : Block} {i : Nat}
    (hb : q.blocks[i]? = some (b.promoted known)) {o : Outline} (ho : q.outline i = .ok o)
    (hline : o.simplify = .shell line) :
    ∃ x, b.items = [x] ∧ q.ItemRuns known line x := by
  rw [hrank.outline_eq hb] at ho
  cases hmembers : (b.promoted known).items.mapM q.itemOutline with
  | error e =>
    rw [hmembers] at ho
    cases ho
  | ok members =>
    rw [hmembers] at ho
    obtain rfl := Except.ok.inj ho
    obtain ⟨o, rfl, hmember⟩ := Outline.exists_of_simplify hline
    replace hmembers : (b.items.map (Item.promoted known)).mapM q.itemOutline = .ok [o] := hmembers
    cases hitems : b.items with
    | nil =>
      rw [hitems] at hmembers
      cases hmembers
    | cons x xs =>
      rw [hitems, List.map_cons] at hmembers
      obtain ⟨y, ys, hx, hxs, hsame⟩ := mapM_cons_ok.1 hmembers
      obtain ⟨rfl, rfl⟩ := List.cons_eq_cons.1 hsame
      have hnil : xs = [] := by
        cases xs with
        | nil => rfl
        | cons z zs =>
          obtain ⟨_, _, -, -, hnil⟩ := mapM_cons_ok.1 hxs
          cases hnil
      refine ⟨x, by rw [hnil], (isCommand_or_block_of_shell hx hmember).imp_right ?_⟩
      rintro ⟨j, hj, houtline⟩
      exact ⟨j, o, hj, houtline, hmember⟩

/-- Blocks of items below the length of a command, which refer to such blocks only, do not run
it. -/
theorem IsForest.not_shell_of_short (hq : q.IsForest) {t : Table} {start : Nat} (hstart : 1 ≤ start)
    (hshort : Table.Each (Item.Short start line.toList.length) start t)
    (ht : ∀ (i : Nat) (b : Block), 1 ≤ i → t[i]? = some b →
      q.blocks[i]? = some (b.promoted known))
    (i : Nat) (hi : start ≤ i) (hsize : i < t.size) {o : Outline} (ho : q.outline i = .ok o) :
    o.simplify ≠ .shell line := by
  induction i using Nat.strongRecOn generalizing o with
  | ind i ih =>
    intro hline
    have hb : t[i]? = some t[i] := Array.getElem?_eq_getElem hsize
    have hpos := Nat.le_trans hstart hi
    obtain ⟨x, hitems, hx⟩ := hq.ranked.exists_item_of_shell (ht i _ hpos hb) ho hline
    have hmem : x ∈ t[i].items := by
      rw [hitems]
      exact List.mem_cons_self
    have hxshort := hshort i _ hi hb x hmem
    unfold Item.Short at hxshort
    rcases hx with ⟨⟨head, words, haction⟩, -⟩ | ⟨j, o', haction, ho', hline'⟩
    · rw [haction] at hxshort
      exact Nat.lt_irrefl _ hxshort
    · rw [haction] at hxshort
      have hreference : j ∈ (t[i].promoted known).references := by
        refine List.mem_filterMap.2 ⟨x, ?_, ?_⟩
        · rw [Block.promoted, hitems, List.map_singleton, promoted_block haction]
          exact List.mem_cons_self
        · unfold Item.blockIndex?
          rw [haction]
      have hbelow := (hq.below i _ hpos (ht i _ hpos hb) j hreference).2
      exact ih j hbelow hxshort (Nat.lt_trans hbelow hsize) ho' hline'

end Pipeline

namespace Document

/-! ## Blocks of the default block -/

namespace State

variable {c : Setting} {file : String} {pos : Position} {line : String} {s t u : State}

theorem Moves.items_isSuffix (h : s.Moves c pos line t) : s.items <:+ t.items := by
  have hreads : ∀ s' text, s.Reads line s' text → s'.items = s.items := by
    rintro s' text (⟨-, -, rfl, -⟩ | ⟨-, -, rfl, -⟩) <;> rfl
  cases h with
  | command s' text statements b h =>
    rw [← hreads s' text h]
    exact List.suffix_append _ _
  | unfinished s' text h => exact (hreads s' text h).symm ▸ List.suffix_rfl
  | closing => exact List.suffix_append _ _
  | _ => exact List.suffix_rfl

/-- The default block refers to a block of its own that ends, and goes on doing so. -/
theorem finishBody_default {lines : List String} {b : Block} {t : Table} {v : State} {k : Nat}
    (hfinish : ((s.withTable t).finishBody none b).result = .ok v)
    (hrun : (v.run c file k lines).result = .ok u) :
    .block t.size :: s.items <:+ u.items ∧
      ∀ (i : Nat) (b' : Block), (t.push b)[i]? = some b' → u.pipeline.blocks[i]? = some b' := by
  obtain rfl := Except.ok.inj hfinish
  refine ⟨?_, fun i b' hb' => getElem?_blocks_of_run hrun hb'⟩
  refine run_invariant (P := fun v => .block t.size :: s.items <:+ v.items) ?_ hrun
    List.suffix_rfl
  intro v w pos line _ hmove hv
  exact hv.trans hmove.items_isSuffix

end State

/-! ## The command of the block -/

/-- The end of a document: lines that a load reads between two entries. The document that comes out
passes its check, and its default block runs a command alone. -/
structure Ending (c : Setting) (file : String) (lines : List String) (line : String) (s u : State)
    (d : Loaded) : Prop where
  run : ∃ k, (s.run c file k lines).result = .ok u
  mode : s.mode = .idle
  items : s.items = []
  nonempty : 0 < s.pipeline.blocks.size
  empty : ∃ parallel, u.pipeline.blocks[Pipeline.defaultIndex]? = some (.empty parallel)
  finish : ∃ last, (u.finish last).result = .ok d
  check : d.pipeline.check.2.result = .ok ⟨⟩
  forest : d.pipeline.check.1.IsForest
  tree : d.pipeline.check.1.tree Pipeline.defaultIndex = .ok (.shell line)

namespace Ending

variable {c : Setting} {file : String} {lines : List String} {line : String} {s u : State}
  {d : Loaded}

theorem exists_default (h : Ending c file lines line s u d) :
    ∃ parallel, d.pipeline.blocks[Pipeline.defaultIndex]? = some ⟨u.items.reverse, parallel⟩ := by
  obtain ⟨parallel, hempty⟩ := h.empty
  obtain ⟨last, hfinish⟩ := h.finish
  exact ⟨parallel, State.default_of_finish hfinish hempty⟩

theorem getElem?_check (h : Ending c file lines line s u d) {i : Nat} {b : Block}
    (hb : d.pipeline.blocks[i]? = some b) :
    d.pipeline.check.1.blocks[i]? = some (b.promoted d.pipeline.procedures.contains) := by
  obtain ⟨hshape, -⟩ := Pipeline.check_of_settled (Pipeline.settled_of_check h.check)
  rw [hshape, Array.getElem?_map, hb]
  rfl

theorem getElem?_blocks (h : Ending c file lines line s u d) {i : Nat} (hi : 1 ≤ i) :
    d.pipeline.blocks[i]? = u.pipeline.blocks[i]? := by
  obtain ⟨last, hfinish⟩ := h.finish
  obtain ⟨-, -, rfl⟩ := State.finish_ok_iff.1 hfinish
  rw [Array.getElem?_modify, if_neg (by unfold Pipeline.defaultIndex; omega)]

theorem lt_size_of_outline (h : Ending c file lines line s u d) {i : Nat} {o : Outline}
    (ho : d.pipeline.check.1.outline i = .ok o) : i < u.pipeline.blocks.size := by
  obtain ⟨last, hfinish⟩ := h.finish
  obtain ⟨-, -, hd⟩ := State.finish_ok_iff.1 hfinish
  obtain ⟨hshape, -⟩ := Pipeline.check_of_settled (Pipeline.settled_of_check h.check)
  obtain ⟨b, members, hb, -⟩ := Pipeline.outlineWithin_ok ho
  have hi := (Array.getElem?_eq_some_iff.1 hb).1
  rw [hshape, hd] at hi
  simpa using hi

/-- The only item of the default block is the command, or a block that runs it alone. -/
theorem exists_item (h : Ending c file lines line s u d) :
    ∃ x, u.items = [x] ∧ d.pipeline.check.1.ItemRuns d.pipeline.procedures.contains line x := by
  obtain ⟨parallel, hdefault⟩ := h.exists_default
  obtain ⟨o, houtline, hline⟩ : ∃ o, d.pipeline.check.1.outline Pipeline.defaultIndex = .ok o ∧
      o.simplify = .shell line := by
    have htree := h.tree
    unfold Pipeline.tree at htree
    cases ho : d.pipeline.check.1.outline Pipeline.defaultIndex with
    | error e =>
      rw [ho] at htree
      cases htree
    | ok o =>
      rw [ho] at htree
      exact ⟨o, rfl, Except.ok.inj htree⟩
  obtain ⟨x, hx, hshell⟩ :=
    h.forest.ranked.exists_item_of_shell (h.getElem?_check hdefault) houtline hline
  refine ⟨x, ?_, hshell⟩
  have hsole : u.items.reverse = [x] := hx
  rwa [List.reverse_eq_iff, List.reverse_singleton] at hsole

/-- **Commands of a block.** A document that ends with a block of one command, and whose default
block runs this command alone, reads the command as itself. -/
theorem readsBack_of_block (h : Ending c file (Bracket.sequential.opening ::
    (Text.physicalLines ("\t" ++ line) ++ [Bracket.sequential.closing])) line s u d) :
    ReadsBack d.pipeline.procedures.contains line := by
  obtain ⟨k, hrun⟩ := h.run
  obtain ⟨last, hfinish⟩ := h.finish
  obtain ⟨hidle, -, -⟩ := State.finish_ok_iff.1 hfinish
  have hopening : State.Moves c ⟨file, k + 1⟩ Bracket.sequential.opening s
      (s.drop.enter (.body none (.new .sequential))) := .opening .sequential h.mode (by decide)
  rw [State.result_run_cons hopening] at hrun
  obtain ⟨b, t, v, k', rest, hcloses, hfinish, hbehind⟩ := State.exists_closes_of_run hrun rfl hidle
  obtain ⟨hitems, hblocks⟩ := State.finishBody_default hfinish hbehind
  have hpos : 1 ≤ t.size := Nat.le_trans h.nonempty hcloses.size_le
  have hfinal : ∀ (i : Nat) (b' : Block), 1 ≤ i → (t.push b)[i]? = some b' →
      d.pipeline.blocks[i]? = some b' :=
    fun i b' hi hb' => (h.getElem?_blocks hi).trans (hblocks i b' hb')
  have hlast : (t.push b)[t.size]? = some b := by simp
  obtain ⟨o, ho, hline⟩ : ∃ o, d.pipeline.check.1.outline t.size = .ok o ∧
      o.simplify = .shell line := by
    obtain ⟨x, hsole, hx⟩ := h.exists_item
    have hblock : x = .block t.size := by
      rw [hsole] at hitems
      exact (List.mem_singleton.1 (hitems.subset List.mem_cons_self)).symm
    rw [hblock] at hx
    rcases hx with ⟨⟨head, words, haction⟩, -⟩ | ⟨i, o, haction, ho, hline⟩
    · cases haction
    · cases haction
      exact ⟨o, ho, hline⟩
  obtain ⟨x, hx, hshell⟩ :=
    h.forest.ranked.exists_item_of_shell (h.getElem?_check (hfinal t.size b hpos hlast)) ho hline
  have hlong : ¬((∀ y ∈ b.items, y.Short s.pipeline.blocks.size line.toList.length) ∧
      Table.Each (Item.Short s.pipeline.blocks.size line.toList.length)
        s.pipeline.blocks.size t) := by
    rintro ⟨hb, ht⟩
    exact h.forest.not_shell_of_short h.nonempty (ht.push hb)
      (fun i b' hi hb' => h.getElem?_check (hfinal i b' hi hb')) t.size hcloses.size_le (by simp)
      ho hline
  obtain ⟨rfl, hreadsBack⟩ :=
    hcloses.readsBack_of_items hlong hx fun l head words => hshell.eq_of_shell
  apply hreadsBack
  rcases hshell with hcommand | ⟨j, o', haction, -⟩
  · have hmem : b ∈ d.pipeline.blocks := Array.mem_of_getElem? (hfinal t.size b hpos hlast)
    have hx' : Item.ofLine line ∈ b.items := by
      rw [hx]
      exact List.mem_cons_self
    exact hcommand.promote_eq (Pipeline.settled_of_check h.check b hmem (.ofLine line) hx')
  · obtain ⟨head, words, hshell⟩ := exists_action_ofLine line
    cases haction.symm.trans hshell

end Ending

end Document

end Runbook
