import Runbook.Proofs.Document.Attribute
import Runbook.Proofs.Document.Written

/-!
# Pipelines that are read back

`Pipeline.Rereadable` collects what the text of a pipeline needs to be read back as a pipeline that
runs the same way: references end, names and attributes have the form of the grammar, and every
command and call is read as itself. It passes from the items to the outlines that are written
(`Rereadable.readable_outline`).
-/

namespace Runbook

open Document
open Shell (posix)

/-- A command or call that is read as itself, or a reference. -/
def Item.Readable (known : String → Bool) (x : Item) : Prop :=
  match x.action with
  | .shell line _ _ => ReadsAs known line (.shell line)
  | .call name args => ReadsAs known (callLine name args) (.call name args)
  | .block _ => True

/-- A pipeline whose text is read back. A single item of the default block is written bare; its
first line must be a command to a reader that is outside of any block. -/
structure Pipeline.Rereadable (p : Pipeline) : Prop where
  nonempty : 0 < p.blocks.size
  ranked : ∃ rank, p.Ranked rank
  roots : ∀ x ∈ p.procedures.values, x.blockIndex < p.blocks.size
  names : ∀ e ∈ p.procedures.entries, e.2.name = e.1 ∧ IsProcedureName e.1
  attributes : ∀ x ∈ p.procedures.values, ∀ a ∈ x.attributes, IsAttribute a
  items : ∀ b ∈ p.blocks, ∀ x ∈ b.items, x.Readable p.procedures.contains
  bare : ∀ b x text, p.blocks[Pipeline.defaultIndex]? = some b → b.items = [x] →
    x.text? posix = some text → ∀ line ∈ (Text.physicalLines text).head?, classify line = .command

namespace Pipeline

variable {p : Pipeline} {known : String → Bool}

theorem readableAll_of_forall {os : List Outline} (h : ∀ o ∈ os, o.Readable known) :
    Outline.ReadableAll known os := by
  induction os with
  | nil => rw [Outline.ReadableAll]; trivial
  | cons o os ih =>
    obtain ⟨ho, hos⟩ := List.forall_mem_cons.1 h
    rw [Outline.ReadableAll]
    exact ⟨ho, ih hos⟩

theorem readable_outlineWithin (h : ∀ b ∈ p.blocks, ∀ x ∈ b.items, x.Readable known) {n i : Nat}
    {o : Outline} (ho : p.outlineWithin n i = .ok o) : o.Readable known := by
  induction n generalizing i o with
  | zero => cases ho
  | succ n ih =>
    obtain ⟨b, members, hb, hmembers, rfl⟩ := outlineWithin_ok ho
    rw [Outline.Readable]
    apply readableAll_of_forall
    intro m hm
    obtain ⟨x, hx, hxm⟩ := exists_of_mapM_ok hmembers m hm
    have hreadable := h b (Array.mem_of_getElem? hb) x hx
    unfold Item.Readable at hreadable
    unfold itemOutlineWith at hxm
    split at hxm
    · next line head words haction =>
      obtain rfl := Except.ok.inj hxm
      rw [haction] at hreadable
      rw [Outline.Readable]
      exact hreadable
    · next name args haction =>
      obtain rfl := Except.ok.inj hxm
      rw [haction] at hreadable
      rw [Outline.Readable]
      exact hreadable
    · exact ih hxm

theorem Rereadable.exists_outline (hp : p.Rereadable) {i : Nat} (hi : i < p.blocks.size) :
    ∃ parallel members, p.outline i = .ok (.group parallel members) ∧
      Outline.ReadableAll p.procedures.contains members := by
  obtain ⟨rank, hrank⟩ := hp.ranked
  obtain ⟨o, ho⟩ := hrank.exists_outline hi
  obtain ⟨b, members, -, -, rfl⟩ := outlineWithin_ok ho
  have hreadable := readable_outlineWithin hp.items ho
  rw [Outline.Readable] at hreadable
  exact ⟨b.parallel, members, ho, hreadable⟩

end Pipeline

end Runbook
