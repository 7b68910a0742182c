import Runbook.Proofs.Document.Attribute
import Runbook.Proofs.Document.Each

/-!
# What loads are made of

Every item of a load refers to a block or is a statement or a whole line of a command
(`Item.Gathered`), every name was read from a header, and every attribute from a line
(`State.Labelled`). Each move keeps this, so it holds of a loaded pipeline (`sound_of_loadText`).
-/

namespace Runbook

open Document

/-- An item that the lines of a document are read as. -/
inductive Item.Gathered : Item → Prop
  /-- A reference to a block. -/
  | reference (i : Nat) : Gathered (.block i)
  /-- One statement of a command. -/
  | statement (text : String) (statements : List Shell.Statement) (s : Shell.Statement)
    (hscan : Shell.tokenize text = .complete statements) (hmem : s ∈ statements) :
    Gathered (.ofStatement s)
  /-- A command that is kept whole for a lone bracket among its statements. -/
  | whole (text : String) (statements : List Shell.Statement)
    (hscan : Shell.tokenize text = .complete statements)
    (hbracket : statements.length > 1 ∧ statements.any Shell.Statement.isBracket) :
    Gathered (.ofStatements text statements)

theorem eachPlaced_gathered (text : String) : EachPlaced Item.Gathered text :=
  fun statements hscan =>
    ⟨.whole text statements hscan, fun s hs => .statement text statements s hscan hs⟩

/-- Procedures whose names and attributes were read. -/
structure Pipeline.Labelled (p : Pipeline) : Prop where
  names : ∀ e ∈ p.procedures.entries, e.2.name = e.1 ∧ IsProcedureName e.1
  attributes : ∀ e ∈ p.procedures.entries, ∀ a ∈ e.2.attributes, IsAttribute a

/-- A pipeline whose items, names and attributes were read. -/
structure Pipeline.Sound (p : Pipeline) : Prop extends p.Labelled where
  gathered : ∀ b ∈ p.blocks, ∀ x ∈ b.items, x.Gathered

namespace Document

/-! ## Names and attributes -/

/-- The procedure that is read has a name from a header. -/
def Mode.Labelled : Mode → Prop
  | .idle => True
  | .command _ => True
  | .header d => IsProcedureName d.name
  | .body owner _ => ∀ d ∈ owner, IsProcedureName d.name

/-- A load whose names and attributes were read. -/
structure State.Labelled (s : State) : Prop where
  pipeline : s.pipeline.Labelled
  mode : s.mode.Labelled
  pending : ∀ a ∈ s.pending, IsAttribute a

namespace State

variable {s s' t : State}

theorem labelled_start (options : Options) : (start options).Labelled := by
  refine ⟨⟨?_, ?_⟩, trivial, ?_⟩
  all_goals
    intro x hx
    cases hx

theorem Labelled.drop (hs : s.Labelled) : s.drop.Labelled :=
  ⟨hs.pipeline, hs.mode, by simp [State.drop]⟩

theorem Labelled.withTable (hs : s.Labelled) (u : Table) : (s.withTable u).Labelled :=
  ⟨⟨hs.pipeline.names, hs.pipeline.attributes⟩, hs.mode, hs.pending⟩

theorem Labelled.enter (hs : s.Labelled) {m : Mode} (hm : m.Labelled) : (s.enter m).Labelled :=
  ⟨hs.pipeline, hm, hs.pending⟩

theorem Labelled.appendDefault (hs : s.Labelled) (xs : List Item) : (s.appendDefault xs).Labelled :=
  ⟨hs.pipeline, trivial, hs.pending⟩

theorem Reads.labelled {line text : String} (h : s.Reads line s' text) (hs : s.Labelled) :
    s'.Labelled := by
  rcases h with ⟨-, -, rfl, -⟩ | ⟨-, -, rfl, -⟩
  · exact hs
  · exact hs.drop

theorem Labelled.withProcedure (hs : s.Labelled) {name : String} (hname : IsProcedureName name)
    (b : Block) (u : Table) : (s.withProcedure name b u).Labelled := by
  refine ⟨⟨fun e he => ?_, fun e he => ?_⟩, trivial, by simp [State.withProcedure]⟩
  · rcases mem_insertEntry he with rfl | he
    · exact ⟨rfl, hname⟩
    · exact hs.pipeline.names e he
  · rcases mem_insertEntry he with rfl | he
    · intro a ha
      exact hs.pending a (List.mem_reverse.1 ha)
    · exact hs.pipeline.attributes e he

/-- **Names and attributes.** A move over a line of a document reads those it adds. -/
theorem Moves.labelled {c : Setting} {pos : Position} {line : String} (hline : '\n' ∉ line.toList)
    (h : s.Moves c pos line t) (hs : s.Labelled) : t.Labelled := by
  have hmode := hs.mode
  cases h with
  | skip => exact hs
  | included target vars => exact ⟨hs.pipeline, hs.mode, by simp [State.drop]⟩
  | header name bracket _ hheader =>
    have hname := isProcedureName_of_classify hheader
    refine ⟨⟨hs.pipeline.names, hs.pipeline.attributes⟩, ?_, hs.pending⟩
    cases bracket with
    | none => exact hname
    | some b =>
      intro d hd
      obtain rfl := Option.some.inj hd
      exact hname
  | opening b => exact hs.drop.enter (by simp [Mode.Labelled])
  | annotates a _ _ hread =>
    exact ⟨hs.pipeline, hs.mode,
      List.forall_mem_cons.2 ⟨isAttribute_of_attribute? hread hline, hs.pending⟩⟩
  | malformed => exact hs
  | assigns => exact ⟨hs.pipeline, hs.mode, by simp [State.drop]⟩
  | unfinished s' text hreads => exact (hreads.labelled hs).enter trivial
  | command s' text statements b hreads => exact ((hreads.labelled hs).withTable _).appendDefault _
  | await => exact hs
  | begin d b hheader =>
    rw [hheader] at hmode
    refine hs.enter fun d' hd => ?_
    obtain rfl := Option.some.inj hd
    exact hmode
  | inside owner n n' u hbody =>
    rw [hbody] at hmode
    exact (hs.withTable u).enter hmode
  | closing n b u => exact (hs.withTable _).appendDefault _
  | procedure d n b u hbody =>
    rw [hbody] at hmode
    exact hs.withProcedure (hmode d rfl) b u

/-! ## Whole documents -/

theorem each_start (P : Item → Prop) (options : Options) : (start options).Each P 0 := by
  refine ⟨by simp [start], by simp [start], fun i b _ hb x hx => ?_⟩
  obtain rfl := Array.mem_singleton.1 (Array.mem_of_getElem? hb)
  cases hx

theorem sound_of_finish {last : Position} {d : Loaded} (h : (s.finish last).result = .ok d)
    (hs : s.Labelled) (heach : s.Each Item.Gathered 0) : d.pipeline.Sound := by
  obtain ⟨-, -, rfl⟩ := finish_ok_iff.1 h
  refine ⟨⟨hs.pipeline.names, hs.pipeline.attributes⟩, fun b hb x hx => ?_⟩
  rcases Table.mem_items_modify hb hx with hx | ⟨b', hb', hx⟩
  · exact heach.items x (List.mem_reverse.1 hx)
  · obtain ⟨i, hi⟩ := Array.mem_iff_getElem?.1 hb'
    exact heach.table i b' (Nat.zero_le i) hi x hx

end State

/-- **Provenance.** A loaded pipeline holds what was read. -/
theorem sound_of_loadText {c : Setting} {file text : String} {d : Loaded}
    (h : (loadText c file text).result = .ok d) : d.pipeline.Sound := by
  obtain ⟨s, hrun, hfinish⟩ := loadText_ok_iff.1 h
  apply State.sound_of_finish hfinish
  · refine State.run_invariant (P := State.Labelled) ?_ hrun (State.labelled_start c.options)
    intro s t pos line hline hmove
    exact hmove.labelled (Text.lineFeed_not_mem_of_mem_lines hline)
  · refine State.run_invariant (P := fun s => s.Each Item.Gathered 0) ?_ hrun
      (State.each_start _ c.options)
    intro s t pos line _ hmove
    exact hmove.each (fun text _ => eachPlaced_gathered text) fun i _ => .reference i

end Document

end Runbook
