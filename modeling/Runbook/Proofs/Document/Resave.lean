import Runbook.Proofs.Document.Provenance
import Runbook.Proofs.Document.Readback
import Runbook.Proofs.Document.RoundTrip

/-!
# Documents that are loaded, written and loaded again

A loaded and checked pipeline has names, attributes and calls that read back, so its text loads to
a pipeline that runs the same way when its shell commands read back too. Not all of them do: the
statement of a line that is a bracket with a `;` is written as the bracket.
-/

namespace Runbook

open Document
open Shell (posix)

/-- The text of a shell command. -/
def Item.command? (x : Item) : Option String :=
  match x.action with
  | .shell line _ _ => some line
  | _ => none

/-- The shell commands of a pipeline, block by block. -/
def Pipeline.commands (p : Pipeline) : List String :=
  p.blocks.toList.flatMap fun b => b.items.filterMap Item.command?

theorem Pipeline.mem_commands {p : Pipeline} {b : Block} (hb : b ∈ p.blocks) {x : Item}
    (hx : x ∈ b.items) {line : String} (h : x.command? = some line) : line ∈ p.commands :=
  List.mem_flatMap.2 ⟨b, Array.mem_toList_iff.2 hb, List.mem_filterMap.2 ⟨x, hx, h⟩⟩

/-! ## Loaded pipelines -/

theorem Item.Gathered.action_ne_call {x : Item} (h : x.Gathered) (name : String)
    (args : Arguments) : x.action ≠ .call name args := by
  cases h with
  | reference i =>
    rintro ⟨⟩
  | statement text statements s =>
    rintro ⟨⟩
  | whole text statements =>
    obtain ⟨head, words, haction⟩ := exists_action_ofStatements text statements
    rw [haction]
    rintro ⟨⟩

/-- Once promoted an item that was read reads back if its command does. -/
theorem Item.Gathered.readsBack_promoted {known : String → Bool} {x : Item} (h : x.Gathered)
    (hcommand : ∀ line, (x.promoted known).command? = some line → Document.ReadsBack known line) :
    (x.promoted known).ReadsBack known := by
  unfold Item.ReadsBack
  split
  · next line head words haction =>
    apply hcommand
    unfold command?
    rw [haction]
  · next name args haction =>
    unfold promoted at haction
    split at haction
    · next y hpromote =>
      obtain ⟨name', args', rfl, hknown, hargs⟩ := exists_call_of_promote hpromote
      obtain ⟨rfl, rfl⟩ := Action.call.inj haction
      exact ⟨hknown, hargs⟩
    · exact absurd haction (h.action_ne_call name args)
  · trivial

section Reload

variable {c : Setting} {file text : String} {d : Loaded}

/-- A loaded and checked pipeline is read back if its commands are. -/
theorem rereadable_of_load (h : (loadText c file text).result = .ok d)
    (hcheck : d.pipeline.check.2.result = .ok ⟨⟩)
    (hcommands : ∀ line ∈ d.pipeline.check.1.commands,
      ReadsBack d.pipeline.check.1.procedures.contains line)
    (hbare : ∀ b x written, d.pipeline.check.1.blocks[Pipeline.defaultIndex]? = some b →
      b.items = [x] → x.text? posix = some written →
      ∀ line ∈ (Text.physicalLines written).head?, classify line = .command) :
    d.pipeline.check.1.Rereadable := by
  have hforest := Pipeline.isForest_of_owned (owned_of_loadText h).check
  have hsound := sound_of_loadText h
  obtain ⟨hshape, -⟩ := Pipeline.check_of_settled (Pipeline.settled_of_check hcheck)
  have hprocedures : d.pipeline.check.1.procedures = d.pipeline.procedures := by
    rw [hshape]
  have hnames : ∀ e ∈ d.pipeline.check.1.procedures.entries,
      e.2.name = e.1 ∧ IsProcedureName e.1 := by
    rw [hprocedures]
    exact hsound.names
  constructor
  · exact hforest.nonempty
  · exact ⟨_, hforest.ranked⟩
  · intro x hx
    exact hforest.inRange _ (List.mem_append_right _ (List.mem_map_of_mem hx))
  · exact hnames
  · intro x hx
    rw [hprocedures] at hx
    obtain ⟨e, he, rfl⟩ := List.mem_map.1 hx
    exact hsound.attributes e he
  · intro b hb y hy
    apply Pipeline.readable_of_readsBack hnames
    have hread : ∀ line, y.command? = some line →
        ReadsBack d.pipeline.check.1.procedures.contains line :=
      fun line hline => hcommands line (Pipeline.mem_commands hb hy hline)
    rw [hprocedures] at hread ⊢
    rw [hshape] at hb
    obtain ⟨b', hb', rfl⟩ := Array.mem_map.1 hb
    obtain ⟨x, hx, rfl⟩ := List.mem_map.1 hy
    exact (hsound.gathered b' hb' x hx).readsBack_promoted hread
  · exact hbare

theorem parallel_of_load (h : (loadText c file text).result = .ok d)
    (hcheck : d.pipeline.check.2.result = .ok ⟨⟩) {b : Block}
    (hb : d.pipeline.check.1.blocks[Pipeline.defaultIndex]? = some b) :
    b.parallel = c.options.defaultParallel := by
  obtain ⟨b', hb', hparallel⟩ := exists_default_of_loadText h
  obtain ⟨hshape, -⟩ := Pipeline.check_of_settled (Pipeline.settled_of_check hcheck)
  rw [hshape, Array.getElem?_map, hb'] at hb
  obtain rfl := Option.some.inj hb
  exact hparallel

/-- **Saving and loading.** A document that loads, whose check succeeds and whose commands read back
is written as a text that loads again, in the same setting; its check succeeds, and the pipeline
that comes out has the same procedures and runs the same way. -/
theorem reload_of_load (h : (loadText c file text).result = .ok d)
    (hcheck : d.pipeline.check.2.result = .ok ⟨⟩)
    (hcommands : ∀ line ∈ d.pipeline.check.1.commands,
      ReadsBack d.pipeline.check.1.procedures.contains line)
    (hbare : ∀ b x written, d.pipeline.check.1.blocks[Pipeline.defaultIndex]? = some b →
      b.items = [x] → x.text? posix = some written →
      ∀ line ∈ (Text.physicalLines written).head?, classify line = .command) :
    ∃ written, d.pipeline.check.1.render posix = .ok written ∧
      ∃ d', (loadText c file written).result = .ok d' ∧ d'.pipeline.check.2.result = .ok ⟨⟩ ∧
        d.pipeline.check.1.Alike d'.pipeline.check.1 := by
  obtain ⟨written, hwritten, d', hload, -, hreload⟩ := exists_reload_of_rereadable
    (rereadable_of_load h hcheck hcommands hbare) file fun b hb => parallel_of_load h hcheck hb
  exact ⟨written, hwritten, d', hload, hreload⟩

end Reload

/-- A document with an attribute, a wrapped command, a call, and a command of two lines that is
written bare. -/
def savedDocument : String :=
  Text.unlines ["#@ desc: build all", "build() \x7b\x7b", "\tmake a; make b", "\tcheck mode='x y'",
    "\x7d\x7d", "check() \x7b", "\techo ok", "\x7d", "echo 'two", "lines'"]

/-- The pipeline that the document loads to, before its check. -/
def savedPipeline : Pipeline where
  blocks :=
    #[⟨[.ofLine "echo 'two\nlines'"], false⟩, ⟨[.ofLine "make a", .ofLine "make b"], false⟩,
      ⟨[.block 1, .ofLine "check mode='x y'"], true⟩, ⟨[.ofLine "echo ok"], false⟩]
  procedures :=
    .ofList [("build", ⟨"build", 2, [("desc", "build all")]⟩), ("check", ⟨"check", 3, []⟩)]
  declarations := .ofList [("build", ⟨"doc.pipe", 2⟩), ("check", ⟨"doc.pipe", 6⟩)]

theorem reload_of_load_savedDocument :
    (loadText .alone "doc.pipe" savedDocument).result = .ok ⟨savedPipeline, .empty⟩ ∧
      ∃ written, savedPipeline.check.1.render posix = .ok written ∧
        ∃ d, (loadText .alone "doc.pipe" written).result = .ok d ∧
          d.pipeline.check.2.result = .ok ⟨⟩ ∧ savedPipeline.check.1.Alike d.pipeline.check.1 := by
  have hload : (loadText .alone "doc.pipe" savedDocument).result = .ok ⟨savedPipeline, .empty⟩ := by
    decide +kernel
  have hdefault : savedPipeline.check.1.blocks[Pipeline.defaultIndex]? =
      some ⟨[.ofLine "echo 'two\nlines'"], false⟩ := by
    decide +kernel
  have htext : (Item.ofLine "echo 'two\nlines'").text? posix = some "echo 'two\nlines'" := by
    decide +kernel
  have hbare : ∀ b x written, savedPipeline.check.1.blocks[Pipeline.defaultIndex]? = some b →
      b.items = [x] → x.text? posix = some written →
      ∀ line ∈ (Text.physicalLines written).head?, classify line = .command := by
    intro b x written hb hitems hwritten
    rw [hdefault] at hb
    obtain rfl := Option.some.inj hb
    obtain rfl := List.singleton_inj.1 hitems
    rw [htext] at hwritten
    obtain rfl := Option.some.inj hwritten
    decide +kernel
  have hreload := reload_of_load hload (by decide +kernel) (by decide +kernel) hbare
  exact ⟨hload, hreload⟩

/-- A block with a statement that is a lone bracket, though its line is none. -/
def bracketDocument : String :=
  Text.unlines ["\x7b", "\x7d;", "\x7d"]

def bracketPipeline : Pipeline :=
  ⟨#[⟨[.block 1], false⟩, ⟨[.shell "\x7d" "\x7d" []], false⟩], .empty, .empty⟩

/-- Without the `;` the statement is written as a bracket, which closes the block. -/
theorem not_reload_of_load :
    (loadText .alone "doc.pipe" bracketDocument).result = .ok ⟨bracketPipeline, .empty⟩ ∧
      bracketPipeline.check.1 = bracketPipeline ∧
      bracketPipeline.check.2.result = .ok ⟨⟩ ∧
      ∃ written, bracketPipeline.render posix = .ok written ∧
        ∀ d, (loadText .alone "doc.pipe" written).result ≠ .ok d := by
  refine ⟨by decide +kernel, by decide +kernel, by decide +kernel,
    Text.unlines ["\x7b", "\t\x7d", "\x7d"], by decide +kernel, ?_⟩
  intro d hd
  have herror : (loadText .alone "doc.pipe" (Text.unlines ["\x7b", "\t\x7d", "\x7d"])).result =
      .error (.unmatchedRightBracket ⟨"doc.pipe", 3⟩ .sequential) := by
    decide +kernel
  rw [herror] at hd
  cases hd

end Runbook
