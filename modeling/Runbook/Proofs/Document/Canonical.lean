import Runbook.Proofs.Document.Readback
import Runbook.Proofs.Document.RoundTrip

/-!
# Canonical pipelines

A pipeline that need not come from a document is canonical when its text says what it holds: its
references end, its names, attributes and arguments have the form of the grammar, and its commands
are read as themselves. The text of a canonical pipeline loads, and the pipeline that comes out runs
the same way.
-/

namespace Runbook

open Document
open Shell (posix)

/-- A shell command of a canonical pipeline: no bracket, one statement, made up by its own lines,
and no call of a procedure. -/
structure CanonicalCommand (known : String → Bool) (line : String) : Prop where
  bare : ¬IsBracketText line
  joins : JoinsToItself line
  statement : ∃ s, Shell.tokenize line = .complete [s] ∧ s.text = line
  stays : (Item.ofLine line).promote known = .ok none

theorem CanonicalCommand.readsBack {known : String → Bool} {line : String}
    (h : CanonicalCommand known line) : ReadsBack known line := by
  obtain ⟨s, hscan, htext⟩ := h.statement
  obtain ⟨htrimmed, hplaced⟩ := placed_of_statement hscan htext
  exact ⟨h.bare, htrimmed, h.joins, ⟨_, hscan, hplaced⟩, h.stays⟩

instance (outcome : Shell.Outcome) (line : String) :
    Decidable (∃ s, outcome = .complete [s] ∧ s.text = line) :=
  match outcome with
  | .complete [s] => decidable_of_iff (s.text = line) (by simp)
  | .complete [] => .isFalse (by simp)
  | .complete (_ :: _ :: _) => .isFalse (by simp)
  | .unfinished => .isFalse (by simp)
  | .malformed _ => .isFalse (by simp)

instance (known : String → Bool) (line : String) : Decidable (CanonicalCommand known line) :=
  decidable_of_iff
    (¬IsBracketText line ∧ JoinsToItself line ∧
      (∃ s, Shell.tokenize line = .complete [s] ∧ s.text = line) ∧
      (Item.ofLine line).promote known = .ok none)
    ⟨fun h => ⟨h.1, h.2.1, h.2.2.1, h.2.2.2⟩, fun h => ⟨h.bare, h.joins, h.statement, h.stays⟩⟩

/-- A shell command of a canonical pipeline, a well-formed call of a procedure, or a reference. -/
def Item.Canonical (known : String → Bool) (x : Item) : Prop :=
  match x.action with
  | .shell line _ _ => CanonicalCommand known line
  | .call name args => known name = true ∧ args.WellNamed
  | .block _ => True

instance (known : String → Bool) : (x : Item) → Decidable (x.Canonical known)
  | ⟨_, .shell line _ _⟩ => inferInstanceAs (Decidable (CanonicalCommand known line))
  | ⟨_, .call name args⟩ => inferInstanceAs (Decidable (known name = true ∧ args.WellNamed))
  | ⟨_, .block _⟩ => .isTrue trivial

theorem Item.Canonical.readsBack {known : String → Bool} {x : Item} (h : x.Canonical known) :
    x.ReadsBack known := by
  unfold Canonical at h
  unfold ReadsBack
  split
  · next line head words haction =>
    rw [haction] at h
    exact h.readsBack
  · next name args haction =>
    rw [haction] at h
    exact h
  · trivial

namespace Pipeline

variable {p : Pipeline}

/-- A pipeline whose text says what it holds. -/
structure Canonical (p : Pipeline) : Prop where
  nonempty : 0 < p.blocks.size
  inRange : ∀ j ∈ p.references, j < p.blocks.size
  acyclic : ∀ i, ¬Relation.TransGen p.Refers i i
  names : ∀ e ∈ p.procedures.entries, e.2.name = e.1 ∧ IsProcedureName e.1
  attributes : ∀ x ∈ p.procedures.values, ∀ a ∈ x.attributes, IsAttribute a
  items : ∀ b ∈ p.blocks, ∀ x ∈ b.items, x.Canonical p.procedures.contains
  bare : ∀ b x text, p.blocks[defaultIndex]? = some b → b.items = [x] →
    x.text? posix = some text → ∀ line ∈ (Text.physicalLines text).head?, classify line = .command

/-! ## Canonical pipelines are read back -/

theorem Canonical.rereadable (h : p.Canonical) : p.Rereadable where
  nonempty := h.nonempty
  ranked := by
    refine ⟨_, ranked_reach ?_ h.acyclic⟩
    rintro i j ⟨b, hb, hj⟩
    exact h.inRange j (mem_references_of_mem hb hj)
  roots _ hx := h.inRange _ (List.mem_append_right _ (List.mem_map_of_mem hx))
  names := h.names
  attributes := h.attributes
  items b hb x hx := readable_of_readsBack h.names (h.items b hb x hx).readsBack
  bare := h.bare

end Pipeline

/-- **Canonical pipelines.** The text of a canonical pipeline loads, under every name and with every
option that has its default flag; its check succeeds, and the pipeline that comes out has the same
procedures and runs the same way. -/
theorem load_render_of_canonical {p : Pipeline} (hp : p.Canonical) (c : Setting) (file : String)
    (hparallel : ∀ b, p.blocks[Pipeline.defaultIndex]? = some b →
      b.parallel = c.options.defaultParallel) :
    ∃ text, p.render posix = .ok text ∧
      ∃ d, (loadText c file text).result = .ok d ∧ d.assigned = .empty ∧
        d.pipeline.check.2.result = .ok ⟨⟩ ∧ p.Alike d.pipeline.check.1 :=
  exists_reload_of_rereadable hp.rereadable file hparallel

/-- A pipeline with a block that is used three times, a command of two lines, and a call with a
quoted argument. -/
def sharedPipeline : Pipeline where
  blocks :=
    #[⟨[.block 1, .block 1, .call "build" ⟨[("mode", "fast run")]⟩], true⟩,
      ⟨[.ofLine "make a", .ofLine "echo 'x\ny'"], true⟩,
      ⟨[.block 1, .ofLine "echo start"], false⟩]
  procedures := .ofList [("build", ⟨"build", 2, [("desc", "build all")]⟩)]
  declarations := .empty

theorem canonical_sharedPipeline : sharedPipeline.Canonical where
  nonempty := by decide
  inRange := by decide
  acyclic := Pipeline.acyclic_of_rank (fun i => [2, 0, 1].getD i 0) (by decide)
  names := by decide
  attributes := by decide
  items := by decide +kernel
  bare := by
    intro b _ _ hb hitems
    obtain rfl := Option.some.inj hb
    cases hitems

theorem load_render_of_canonical_sharedPipeline :
    sharedPipeline.Canonical ∧
      ∃ text, sharedPipeline.render posix = .ok text ∧
        ∃ d, (loadText ⟨{ defaultParallel := true }, Setting.alone.files⟩ "doc.pipe" text).result =
            .ok d ∧
          d.assigned = .empty ∧ d.pipeline.check.2.result = .ok ⟨⟩ ∧
          sharedPipeline.Alike d.pipeline.check.1 := by
  refine ⟨canonical_sharedPipeline, load_render_of_canonical canonical_sharedPipeline _ _ ?_⟩
  intro b hb
  obtain rfl := Option.some.inj hb
  rfl

end Runbook
