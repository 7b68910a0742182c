import Runbook.Proofs.Document.Concatenation
import Runbook.Proofs.Pipeline.Embedding

/-!
# Procedures in any place

A document may be cut into chunks that load on their own, each with procedures or with what the
default block runs and variables. What the chunks load to one behind the other is what their parts
have, and the order counts for the default block and the variables alone (`Chunk.has_join_iff`,
`Chunk.exists_members_join`). So chunks with procedures may stand anywhere, also behind the calls of
these procedures (`alike_of_perm`).
-/

namespace Runbook.Document

/-- A piece of a document: a text of whole lines that loads and leaves no attribute. With procedures
it has no items of the default block and no variables. -/
structure Chunk (c : Setting) (file : String) where
  text : String
  loaded : Loaded
  endsLine : Text.EndsLine text
  loads : (loadText c file text).result = .ok loaded
  leaves : LeavesNoAttribute c file text
  separate : loaded.pipeline.procedures.entries ≠ [] →
    Table.defaultItems loaded.pipeline.blocks = [] ∧ loaded.assigned = .empty

namespace Chunk

variable {c : Setting} {file : String} {x y : Chunk c file} {xs ys : List (Chunk c file)}

/-- Whether the chunk has items of the default block and variables, if anything. -/
def isPlain (x : Chunk c file) : Bool :=
  x.loaded.pipeline.procedures.entries.isEmpty

/-- No procedure is in both chunks. -/
def Apart (x y : Chunk c file) : Prop :=
  ∀ name, x.loaded.pipeline.procedures.contains name = true →
    y.loaded.pipeline.procedures.contains name = false

instance (x y : Chunk c file) : Decidable (x.Apart y) :=
  decidable_of_iff (∀ name ∈ x.loaded.pipeline.procedures.names,
      y.loaded.pipeline.procedures.contains name = false) (by
    simp only [Apart, ByName.contains_iff_mem_names])

theorem Apart.symm (h : x.Apart y) : y.Apart x := by
  intro name hname
  rw [← Bool.not_eq_true]
  intro hother
  rw [h name hother] at hname
  cases hname

/-- The chunks one behind the other. -/
def textOf (xs : List (Chunk c file)) : String :=
  String.join (xs.map text)

/-- What the chunks one behind the other load to. -/
def join : List (Chunk c file) → Loaded
  | [] => ⟨.empty c.options.defaultParallel, .empty⟩
  | x :: xs => x.loaded.followedBy (join xs) (Text.lines x.text).length

theorem contains_join (xs : List (Chunk c file)) (name : String) :
    (join xs).pipeline.procedures.contains name =
      xs.any (·.loaded.pipeline.procedures.contains name) := by
  induction xs with
  | nil => rfl
  | cons x xs ih =>
    show (Pipeline.followedBy _ _ _).procedures.contains name = _
    rw [Pipeline.contains_followedBy, ih, List.any_cons]

theorem loadText_textOf (h : xs.Pairwise Apart) :
    (loadText c file (textOf xs)).result = .ok (join xs) := by
  induction xs with
  | nil => rfl
  | cons x xs ih =>
    obtain ⟨hx, hxs⟩ := List.pairwise_cons.1 h
    have htext : textOf (x :: xs) = x.text ++ textOf xs := by
      simp [textOf]
    rw [htext]
    refine loadText_followedBy x.endsLine x.loads x.leaves (ih hxs) fun name hname => ?_
    rw [contains_join, List.any_eq_false]
    intro y hy
    rw [hx y hy name hname]
    exact Bool.false_ne_true

/-! ## What the chunks have -/

variable {known : String → Bool}

theorem isForest_promoted {text : String} {d : Loaded} (h : (loadText c file text).result = .ok d)
    (known : String → Bool) : (d.pipeline.promoted known).IsForest :=
  Pipeline.isForest_of_owned ((owned_of_loadText h).promoted known)

theorem has_join_iff (h : xs.Pairwise Apart) {name : String} {attributes : List (String × String)}
    {o : Outline} : (join xs).pipeline.Has known name attributes o ↔
      ∃ x ∈ xs, x.loaded.pipeline.Has known name attributes o := by
  induction xs with
  | nil =>
    constructor
    · rintro ⟨x, hx, -⟩
      cases hx
    · rintro ⟨x, hx, -⟩
      cases hx
  | cons x xs ih =>
    obtain ⟨hx, hxs⟩ := List.pairwise_cons.1 h
    have hforest := isForest_promoted (loadText_textOf hxs) known
    show (Pipeline.followedBy _ _ _).Has known name attributes o ↔ _
    rw [Pipeline.has_followedBy_iff (isForest_promoted x.loads known) hforest, ih hxs]
    · simp
    · intro name hname
      rw [contains_join, List.any_eq_false]
      intro y hy
      rw [hx y hy name hname]
      exact Bool.false_ne_true

/-- The chunks give no option twice when none of them does. -/
theorem settled_join_iff (h : xs.Pairwise Apart) :
    (join xs).pipeline.Settled known ↔ ∀ x ∈ xs, x.loaded.pipeline.Settled known := by
  induction xs with
  | nil =>
    refine ⟨fun _ x hx => (List.not_mem_nil hx).elim, fun _ b hb y hy => ?_⟩
    obtain rfl : b = .empty c.options.defaultParallel := by
      simpa [join, Pipeline.empty] using hb
    cases hy
  | cons x xs ih =>
    obtain ⟨hx, hxs⟩ := List.pairwise_cons.1 h
    show (Pipeline.followedBy _ _ _).Settled known ↔ _
    rw [Pipeline.settled_followedBy (owned_of_loadText x.loads).nonempty
      (owned_of_loadText (loadText_textOf hxs)).nonempty, ih hxs, List.forall_mem_cons]

theorem not_isPlain_iff : x.isPlain = false ↔ x.loaded.pipeline.procedures.entries ≠ [] := by
  simp [isPlain]

/-- The default block runs what those of the plain chunks run, in their order. -/
theorem exists_members_join (h : xs.Pairwise Apart) (known : String → Bool) :
    ∃ mss, (xs.filter isPlain).mapM
        (fun x => (x.loaded.pipeline.promoted known).members) = .ok mss ∧
      ((join xs).pipeline.promoted known).members = .ok mss.flatten := by
  induction xs with
  | nil => exact ⟨[], rfl, Pipeline.members_promoted_of_nil rfl known⟩
  | cons x xs ih =>
    obtain ⟨hx, hxs⟩ := List.pairwise_cons.1 h
    obtain ⟨mss, hmss, hmembers⟩ := ih hxs
    have hforest := isForest_promoted (loadText_textOf hxs) known
    have hforest' := isForest_promoted x.loads known
    have hjoin : ∀ {os}, (x.loaded.pipeline.promoted known).members = .ok os →
        ((join (x :: xs)).pipeline.promoted known).members = .ok (os ++ mss.flatten) := by
      intro os hos
      show ((Pipeline.followedBy _ _ _).promoted known).members = _
      rw [Pipeline.promoted_followedBy]
      exact Pipeline.members_followedBy hforest'.toFree hforest.toFree hforest'.nonempty
        hforest.nonempty _ hos hmembers
    cases hplain : x.isPlain with
    | true =>
      obtain ⟨os, hos⟩ := hforest'.exists_members
      refine ⟨os :: mss, ?_, hjoin hos⟩
      rw [List.filter_cons_of_pos hplain, List.mapM_cons, hos, hmss]
      rfl
    | false =>
      have hnone := (x.separate (not_isPlain_iff.1 hplain)).1
      refine ⟨mss, ?_, hjoin (Pipeline.members_promoted_of_nil hnone known)⟩
      rw [List.filter_cons_of_neg (by simp [hplain]), hmss]

theorem assigned_join (xs : List (Chunk c file)) :
    (join xs).assigned =
      (xs.filter isPlain).foldr (fun x vars => x.loaded.assigned.overwrite vars) .empty := by
  induction xs with
  | nil => rfl
  | cons x xs ih =>
    show x.loaded.assigned.overwrite (join xs).assigned = _
    cases hplain : x.isPlain with
    | true => rw [List.filter_cons_of_pos hplain, List.foldr_cons, ih]
    | false =>
      have hnone := (x.separate (not_isPlain_iff.1 hplain)).2
      rw [List.filter_cons_of_neg (by simp [hplain]), ← ih, hnone, ByName.empty_overwrite]

end Chunk

/-! ## Any order -/

variable {c : Setting} {file text : String} {d e : Loaded}

theorem tree_default (h : (loadText c file text).result = .ok d) (known : String → Bool)
    {os : List Outline} (hos : (d.pipeline.promoted known).members = .ok os) :
    (d.pipeline.promoted known).tree Pipeline.defaultIndex =
      .ok (Outline.group c.options.defaultParallel os).simplify := by
  obtain ⟨b, hb, hparallel⟩ := exists_default_of_loadText h
  have hb' : (d.pipeline.promoted known).blocks[Pipeline.defaultIndex]? =
      some (b.promoted known) := by
    simp [Pipeline.promoted, hb]
  apply Pipeline.tree_of_outline
  unfold Pipeline.members at hos
  rw [Table.defaultItems_eq hb'] at hos
  rw [(Chunk.isForest_promoted h known).ranked.outline_eq hb', hos, ← hparallel]
  rfl

/-- **Procedures in any place.** Chunks of a document with different procedures load one behind the
other in every order. When the plain ones keep their order, the variables are the same, the check
succeeds for both orders or for none, and then both pipelines run the same way. -/
theorem alike_of_perm {xs ys : List (Chunk c file)} (hperm : xs.Perm ys)
    (horder : xs.filter Chunk.isPlain = ys.filter Chunk.isPlain)
    (hdistinct : xs.Pairwise Chunk.Apart) :
    ∃ d e, (loadText c file (Chunk.textOf xs)).result = .ok d ∧
      (loadText c file (Chunk.textOf ys)).result = .ok e ∧ e.assigned = d.assigned ∧
      (d.pipeline.check.2.result = .ok ⟨⟩ ↔ e.pipeline.check.2.result = .ok ⟨⟩) ∧
      (d.pipeline.check.2.result = .ok ⟨⟩ → d.pipeline.check.1.Alike e.pipeline.check.1) := by
  have hdistinct' : ys.Pairwise Chunk.Apart := hperm.pairwise hdistinct Chunk.Apart.symm
  have hd := Chunk.loadText_textOf hdistinct
  have he := Chunk.loadText_textOf hdistinct'
  have hnames : ∀ name, (Chunk.join ys).pipeline.procedures.contains name =
      (Chunk.join xs).pipeline.procedures.contains name := by
    intro name
    rw [Chunk.contains_join, Chunk.contains_join, hperm.any_eq]
  have hknown : (Chunk.join ys).pipeline.procedures.contains =
      (Chunk.join xs).pipeline.procedures.contains := funext hnames
  have hsettled : ∀ known, (Chunk.join xs).pipeline.Settled known ↔
      (Chunk.join ys).pipeline.Settled known := by
    intro known
    rw [Chunk.settled_join_iff hdistinct, Chunk.settled_join_iff hdistinct']
    exact ⟨fun h x hx => h x (hperm.mem_iff.2 hx), fun h x hx => h x (hperm.mem_iff.1 hx)⟩
  refine ⟨Chunk.join xs, Chunk.join ys, hd, he, ?_, ?_, fun hcheck => ?_⟩
  · rw [Chunk.assigned_join, Chunk.assigned_join, horder]
  · rw [Pipeline.check_ok_iff, Pipeline.check_ok_iff, hknown, hsettled]
  · have hok := Pipeline.check_ok_iff.1 hcheck
    have hok' := (hsettled _).1 hok
    rw [Pipeline.check_eq_promoted hok, Pipeline.check_eq_promoted (hknown ▸ hok'), hknown]
    refine Pipeline.alike_of_has (Chunk.isForest_promoted hd _) hnames ?_ ?_
    · intro name attributes o
      rw [Chunk.has_join_iff hdistinct, Chunk.has_join_iff hdistinct']
      rintro ⟨x, hx, hhas⟩
      exact ⟨x, hperm.mem_iff.1 hx, hhas⟩
    · obtain ⟨mss, hmss, hmembers⟩ := Chunk.exists_members_join hdistinct
        (Chunk.join xs).pipeline.procedures.contains
      obtain ⟨mss', hmss', hmembers'⟩ := Chunk.exists_members_join hdistinct'
        (Chunk.join xs).pipeline.procedures.contains
      rw [horder] at hmss
      obtain rfl := Except.ok.inj (hmss.symm.trans hmss')
      exact ⟨_, tree_default hd _ hmembers, tree_default he _ hmembers'⟩

/-- A chunk with a procedure that calls another one. -/
def buildChunk : Chunk .alone "doc.pipe" where
  text := Text.unlines
    ["# first", "#@ desc: all", "build() \x7b", "\tmake", "\tship level=1", "\x7d"]
  loaded :=
    ⟨⟨#[.empty false, ⟨[.ofLine "make", .ofLine "ship level=1"], false⟩],
      .ofList [("build", ⟨"build", 1, [("desc", "all")]⟩)],
      .ofList [("build", ⟨"doc.pipe", 3⟩)]⟩, .empty⟩
  endsLine := by decide +kernel
  loads := by decide +kernel
  leaves := leavesNoAttribute_of_map (by decide +kernel)
  separate := by decide +kernel

/-- A chunk with a procedure of one wrapped command. -/
def shipChunk : Chunk .alone "doc.pipe" where
  text := Text.unlines ["ship() \x7b\x7b", "\tpack; send", "\x7d\x7d", ""]
  loaded :=
    ⟨⟨#[.empty false, ⟨[.ofLine "pack", .ofLine "send"], false⟩, ⟨[.block 1], true⟩],
      .ofList [("ship", ⟨"ship", 2, []⟩)], .ofList [("ship", ⟨"doc.pipe", 1⟩)]⟩, .empty⟩
  endsLine := by decide +kernel
  loads := by decide +kernel
  leaves := leavesNoAttribute_of_map (by decide +kernel)
  separate := by decide +kernel

/-- A chunk with a variable, and a block that calls a procedure. -/
def callChunk : Chunk .alone "doc.pipe" where
  text := Text.unlines ["x = 1", "\x7b", "\tbuild", "\tship level='2'", "\x7d"]
  loaded :=
    ⟨⟨#[⟨[.block 1], false⟩, ⟨[.ofLine "build", .ofLine "ship level='2'"], false⟩], .empty, .empty⟩,
      .ofList [("x", "1")]⟩
  endsLine := by decide +kernel
  loads := by decide +kernel
  leaves := leavesNoAttribute_of_map (by decide +kernel)
  separate := by decide +kernel

/-- Calls may stand before the procedures and behind them. -/
theorem alike_of_perm_callChunk :
    ∃ d e, (loadText .alone "doc.pipe" (Chunk.textOf [callChunk, buildChunk, shipChunk])).result =
        .ok d ∧
      (loadText .alone "doc.pipe" (Chunk.textOf [shipChunk, buildChunk, callChunk])).result =
        .ok e ∧ e.assigned = d.assigned ∧ d.pipeline.check.2.result = .ok ⟨⟩ ∧
      e.pipeline.check.2.result = .ok ⟨⟩ ∧ d.pipeline.check.1.Alike e.pipeline.check.1 := by
  have hperm : [callChunk, buildChunk, shipChunk].Perm [shipChunk, buildChunk, callChunk] :=
    List.reverse_perm [shipChunk, buildChunk, callChunk]
  have hplain : callChunk.isPlain = true ∧ buildChunk.isPlain = false ∧
      shipChunk.isPlain = false := by
    decide +kernel
  have horder : [callChunk, buildChunk, shipChunk].filter Chunk.isPlain =
      [shipChunk, buildChunk, callChunk].filter Chunk.isPlain := by
    simp [hplain]
  obtain ⟨d, e, hd, he, hassigned, hiff, halike⟩ := alike_of_perm hperm horder (by decide +kernel)
  have hcheck : (loadText .alone "doc.pipe"
      (Chunk.textOf [callChunk, buildChunk, shipChunk])).result.map
        (·.pipeline.check.2.result) = .ok (.ok ⟨⟩) := by
    decide +kernel
  rw [hd] at hcheck
  have hok := Except.ok.inj hcheck
  exact ⟨d, e, hd, he, hassigned, hok, hiff.1 hok, halike hok⟩

end Runbook.Document
