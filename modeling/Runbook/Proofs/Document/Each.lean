import Runbook.Proofs.Document.Forest

/-!
# Items of open blocks

A property of items that holds of every reference and of everything a command can become is kept by
each line inside brackets: it holds of the items of the open blocks, and of the items of the blocks
that join the table (`Nest.Moves.each`).
-/

namespace Runbook

open Document

/-- The blocks of a table from an index on, made of such items. -/
def Table.Each (P : Item → Prop) (start : Nat) (t : Table) : Prop :=
  ∀ i b, start ≤ i → t[i]? = some b → ∀ x ∈ b.items, P x

/-- A command text that becomes such items whenever it is complete. -/
def EachPlaced (P : Item → Prop) (text : String) : Prop :=
  ∀ statements, Shell.tokenize text = .complete statements →
    (statements.length > 1 ∧ statements.any Shell.Statement.isBracket →
      P (.ofStatements text statements)) ∧
    ∀ s ∈ statements, P (.ofStatement s)

section Each

variable {P : Item → Prop} {start : Nat} {t : Table}

theorem Table.Each.push (h : t.Each P start) {b : Block} (hb : ∀ x ∈ b.items, P x) :
    Table.Each P start (t.push b) := by
  intro i c hi hc
  rw [Array.getElem?_push] at hc
  split at hc
  · obtain rfl := Option.some.inj hc
    exact hb
  · exact h i c hi hc

theorem Table.each_size (P : Item → Prop) (t : Table) : Table.Each P t.size t := by
  intro i b hi hb
  have := (Array.getElem?_eq_some_iff.1 hb).1
  omega

theorem each_ofCommand (ht : t.Each P start) (hblock : P (.block t.size)) {text : String}
    (htext : EachPlaced P text) {statements : List Shell.Statement}
    (hscan : Shell.tokenize text = .complete statements) (parallel : Bool) :
    (∀ x ∈ (Placement.ofCommand text statements parallel).itemsIn t, P x) ∧
      Table.Each P start ((Placement.ofCommand text statements parallel).addTo t) := by
  obtain ⟨hwhole, hstatement⟩ := htext statements hscan
  have hstatements : ∀ x ∈ statements.map Item.ofStatement, P x := by
    intro x hx
    obtain ⟨s, hs, rfl⟩ := List.mem_map.1 hx
    exact hstatement s hs
  unfold Placement.ofCommand
  split
  · next hbracket =>
    refine ⟨fun x hx => ?_, ht⟩
    rw [List.mem_singleton.1 hx]
    exact hwhole hbracket
  split
  · refine ⟨fun x hx => ?_, ht.push hstatements⟩
    rw [List.mem_singleton.1 hx]
    exact hblock
  · exact ⟨hstatements, ht⟩

namespace Document

/-- Open blocks of such items. -/
def Nest.Each (P : Item → Prop) (n : Nest) : Prop :=
  ∀ f ∈ n.inner :: n.outer, ∀ x ∈ f.items, P x

/-- The blocks behind a line inside brackets, made of such items. -/
def Advance.Each (P : Item → Prop) : Advance → Prop
  | .inside n _ => n.Each P
  | .closed b _ => ∀ x ∈ b.items, P x

theorem Nest.each_new (b : Bracket) : (Nest.new b).Each P := by
  intro f hf x hx
  rw [List.mem_singleton.1 hf] at hx
  cases hx

theorem Frame.each_append {f : Frame} {xs : List Item} (hf : ∀ x ∈ f.items, P x)
    (hxs : ∀ x ∈ xs, P x) : ∀ x ∈ (f.append xs).items, P x := by
  intro x hx
  rcases List.mem_append.1 hx with hx | hx
  · exact hxs x (List.mem_reverse.1 hx)
  · exact hf x hx

theorem Frame.each_block {f : Frame} (h : ∀ x ∈ f.items, P x) : ∀ x ∈ f.block.items, P x :=
  fun x hx => h x (List.mem_reverse.1 hx)

/-- **Items of open blocks.** A line inside brackets adds such items only. -/
theorem Nest.Moves.each {n : Nest} {line : String} {a : Advance} (h : n.Moves line t a)
    (hplaced : ∀ text, n.Reads line text → EachPlaced P text) (hblock : P (.block t.size))
    (hn : n.Each P) (ht : t.Each P start) : a.Each P ∧ a.table.Each P start := by
  obtain ⟨hinner, houter⟩ := List.forall_mem_cons.1 hn
  cases h with
  | skip => exact ⟨hn, ht⟩
  | unfinished => exact ⟨hn, ht⟩
  | command text statements hreads hscan =>
    obtain ⟨hitems, htable⟩ :=
      each_ofCommand ht hblock (hplaced text hreads) hscan n.inner.bracket.isParallel
    exact ⟨List.forall_mem_cons.2 ⟨Frame.each_append hinner hitems, houter⟩, htable⟩
  | opening b =>
    refine ⟨List.forall_mem_cons.2 ⟨?_, hn⟩, ht⟩
    exact Nest.each_new b _ List.mem_cons_self
  | nested f fs hcommand hfs hline =>
    rw [hfs] at houter
    obtain ⟨hf, hfs⟩ := List.forall_mem_cons.1 houter
    refine ⟨List.forall_mem_cons.2 ⟨Frame.each_append hf ?_, hfs⟩,
      ht.push (Frame.each_block hinner)⟩
    intro x hx
    rw [List.mem_singleton.1 hx]
    exact hblock
  | closing => exact ⟨Frame.each_block hinner, ht⟩

theorem Nest.Moves.size_le {n : Nest} {line : String} {a : Advance} (h : n.Moves line t a) :
    t.size ≤ a.table.size := by
  cases h with
  | command text statements =>
    show t.size ≤ ((Placement.ofCommand text statements _).addTo t).size
    cases Placement.ofCommand text statements n.inner.bracket.isParallel with
    | items xs => exact Nat.le_refl _
    | wrapped b' =>
      rw [Placement.addTo, Array.size_push]
      exact Nat.le_succ _
  | nested => simp [Advance.table]
  | skip => exact Nat.le_refl _
  | unfinished => exact Nat.le_refl _
  | opening => exact Nat.le_refl _
  | closing => exact Nat.le_refl _

/-- A load whose items, those of the open blocks and those of the blocks from an index on are such
items. -/
structure State.Each (P : Item → Prop) (start : Nat) (s : State) : Prop where
  items : ∀ x ∈ s.items, P x
  nest : ∀ owner n, s.mode = .body owner n → n.Each P
  table : Table.Each P start s.pipeline.blocks

/-- The line leads to a command text, of the default block or inside brackets. -/
def State.Takes (s : State) (line text : String) : Prop :=
  (∃ s', s.Reads line s' text) ∨ ∃ owner n, s.mode = .body owner n ∧ n.Reads line text

namespace State

variable {s s' u : State}

theorem Reads.each {line text : String} (h : s.Reads line s' text) (hs : s.Each P start) :
    s'.Each P start := by
  rcases h with ⟨-, -, rfl, -⟩ | ⟨-, -, rfl, -⟩
  · exact hs
  · exact ⟨hs.items, hs.nest, hs.table⟩

/-- **Items of a load.** A line of a document adds such items only. -/
theorem Moves.each {c : Setting} {pos : Position} {line : String} (h : s.Moves c pos line u)
    (hplaced : ∀ text, s.Takes line text → EachPlaced P text)
    (hblock : ∀ i, s.pipeline.blocks.size ≤ i → P (.block i)) (hs : s.Each P start) :
    u.Each P start := by
  have hnew : ∀ {owner : Option Declaration} {b : Bracket},
      ∀ owner' n, Mode.body owner (.new b) = .body owner' n → n.Each P := by
    rintro owner b owner' n ⟨⟩
    exact Nest.each_new b
  cases h with
  | skip => exact hs
  | included target vars => exact ⟨hs.items, hs.nest, hs.table⟩
  | header name bracket =>
    refine ⟨hs.items, ?_, hs.table⟩
    cases bracket with
    | none => rintro _ _ ⟨⟩
    | some b => exact hnew
  | opening b => exact ⟨hs.items, hnew, hs.table⟩
  | annotates => exact ⟨hs.items, hs.nest, hs.table⟩
  | malformed => exact hs
  | assigns => exact ⟨hs.items, hs.nest, hs.table⟩
  | unfinished s' text hreads =>
    obtain ⟨hitems, -, htable⟩ := hreads.each hs
    exact ⟨hitems, by rintro _ _ ⟨⟩, htable⟩
  | command s' text statements b hreads hscan =>
    obtain ⟨hitems, htable⟩ := each_ofCommand hs.table (hblock _ (Nat.le_refl _))
      (hplaced text (.inl ⟨s', hreads⟩)) hscan b.parallel
    refine ⟨fun x hx => ?_, by rintro _ _ ⟨⟩, htable⟩
    rcases List.mem_append.1 hx with hx | hx
    · exact hitems x (List.mem_reverse.1 hx)
    · exact (hreads.each hs).items x hx
  | await => exact hs
  | begin d b => exact ⟨hs.items, hnew, hs.table⟩
  | inside owner n n' t hmode hmove =>
    obtain ⟨hn, ht⟩ := hmove.each (fun text h => hplaced text (.inr ⟨owner, n, hmode, h⟩))
      (hblock _ (Nat.le_refl _)) (hs.nest owner n hmode) hs.table
    exact ⟨hs.items, by rintro _ _ ⟨⟩; exact hn, ht⟩
  | closing n b t hmode hmove =>
    obtain ⟨hb, ht⟩ := hmove.each (fun text h => hplaced text (.inr ⟨none, n, hmode, h⟩))
      (hblock _ (Nat.le_refl _)) (hs.nest none n hmode) hs.table
    refine ⟨fun x hx => ?_, by rintro _ _ ⟨⟩, ht.push hb⟩
    rcases List.mem_append.1 hx with hx | hx
    · rw [List.mem_singleton.1 (List.mem_reverse.1 hx)]
      exact hblock _ hmove.size_le
    · exact hs.items x hx
  | procedure d n b t hmode hmove =>
    obtain ⟨hb, ht⟩ := hmove.each (fun text h => hplaced text (.inr ⟨some d, n, hmode, h⟩))
      (hblock _ (Nat.le_refl _)) (hs.nest (some d) n hmode) hs.table
    exact ⟨hs.items, by rintro _ _ ⟨⟩, ht.push hb⟩

end State

end Document

end Each

end Runbook
