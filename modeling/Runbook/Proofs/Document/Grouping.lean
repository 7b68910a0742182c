import Runbook.Proofs.Document.Concatenation
import Runbook.Proofs.Pipeline.Runs

/-!
# A parallel default block

Whether the default block is parallel decides how the statements of a line are grouped there, and
so which blocks the table gets. Nothing else hangs on it: both loads go on side by side, with items
that run the same commands in tables of their own (`State.Same`), fail with the same error or come
to the same end (`loadText_withParallel`).
-/

namespace Runbook

/-! ## Results side by side -/

/-- Both fail with the same error, or both succeed with related values. -/
inductive Agree {ε : Type u} {α : Type v} {β : Type w} (R : α → β → Prop) :
    Except ε α → Except ε β → Prop
  | ok {a : α} {b : β} (h : R a b) : Agree R (.ok a) (.ok b)
  | error (e : ε) : Agree R (.error e) (.error e)

theorem Agree.bind {ε : Type u} {α β γ δ : Type v} {R : α → β → Prop} {S : γ → δ → Prop}
    {x : Except ε α} {y : Except ε β} {f : α → Except ε γ} {g : β → Except ε δ} (h : Agree R x y)
    (hnext : ∀ a b, R a b → Agree S (f a) (g b)) : Agree S (x.bind f) (y.bind g) := by
  cases h with
  | ok h => exact hnext _ _ h
  | error e => exact .error e

/-- The procedures have the same attributes, and bodies that run the same. -/
structure Procedure.Same (t u : Table) (x y : Procedure) : Prop where
  attributes : x.attributes = y.attributes
  body : ∃ o, t.Runs [.block x.blockIndex] [o] ∧ u.Runs [.block y.blockIndex] [o]

theorem Procedure.Same.mono {t t' u u' : Table} {x y : Procedure} (h : Procedure.Same t u x y)
    (ht : t.Keeps t') (hu : u.Keeps u') : Procedure.Same t' u' x y := by
  obtain ⟨hattributes, o, hx, hy⟩ := h
  exact ⟨hattributes, o, hx.mono ht, hy.mono hu⟩

namespace Document

/-! ## Open blocks -/

/-- The open blocks have the same bracket, and their items run the same in tables of their own. -/
structure Frame.Same (t u : Table) (f g : Frame) : Prop where
  bracket : f.bracket = g.bracket
  items : ∃ os, t.Runs f.items.reverse os ∧ u.Runs g.items.reverse os

/-- The same blocks are open, with the same command. -/
structure Nest.Same (t u : Table) (n m : Nest) : Prop where
  inner : Frame.Same t u n.inner m.inner
  outer : List.Forall₂ (Frame.Same t u) n.outer m.outer
  command : n.command = m.command

/-- A line leads to the same open blocks, or closes blocks that run the same; the tables have
grown. -/
inductive Advance.Same (t u : Table) : Advance → Advance → Prop
  | inside {n m : Nest} {t' u' : Table} (ht : t.Keeps t') (hu : u.Keeps u')
    (h : Nest.Same t' u' n m) : Advance.Same t u (.inside n t') (.inside m u')
  | closed {b b' : Block} {t' u' : Table} {os : List Outline} (ht : t.Keeps t') (hu : u.Keeps u')
    (hparallel : b.parallel = b'.parallel) (hb : t'.Runs b.items os) (hb' : u'.Runs b'.items os) :
    Advance.Same t u (.closed b t') (.closed b' u')

section Nests

variable {t t' u u' : Table} {f g : Frame} {n m : Nest} {xs ys : List Item} {os : List Outline}

theorem Frame.Same.mono (h : Frame.Same t u f g) (ht : t.Keeps t') (hu : u.Keeps u') :
    Frame.Same t' u' f g := by
  obtain ⟨hbracket, os, hf, hg⟩ := h
  exact ⟨hbracket, os, hf.mono ht, hg.mono hu⟩

theorem Frame.same_new (t u : Table) (b : Bracket) : Frame.Same t u (.new b) (.new b) :=
  ⟨rfl, [], .nil t, .nil u⟩

theorem Frame.Same.append (h : Frame.Same t u f g) (hxs : t.Runs xs os) (hys : u.Runs ys os) :
    Frame.Same t u (f.append xs) (g.append ys) := by
  obtain ⟨hbracket, os', hf, hg⟩ := h
  refine ⟨hbracket, os' ++ os, ?_, ?_⟩
  · simpa [Frame.append] using hf.append hxs
  · simpa [Frame.append] using hg.append hys

theorem Nest.Same.mono (h : Nest.Same t u n m) (ht : t.Keeps t') (hu : u.Keeps u') :
    Nest.Same t' u' n m :=
  ⟨h.inner.mono ht hu, h.outer.imp fun _ _ hframe => hframe.mono ht hu, h.command⟩

theorem Nest.same_new (t u : Table) (b : Bracket) : Nest.Same t u (.new b) (.new b) :=
  ⟨Frame.same_new t u b, .nil, rfl⟩

variable {pos : Position} {line text : String}

theorem Nest.Same.readCommand (h : Nest.Same t u n m) (ht : 0 < t.size) (hu : 0 < u.size) :
    Agree (Advance.Same t u) (n.readCommand t pos text).result
      (m.readCommand u pos text).result := by
  unfold Nest.readCommand
  simp only [Logged.result_bind, Logged.result_ofExcept]
  cases commandAt pos text with
  | error e => exact .error e
  | ok command =>
    cases command with
    | none => exact .ok (.inside (.refl t) (.refl u) ⟨h.inner, h.outer, rfl⟩)
    | some statements =>
      rw [h.inner.bracket]
      refine .ok (.inside (.addTo t _) (.addTo u _) ⟨?_, ?_, rfl⟩)
      · exact (h.inner.mono (.addTo t _) (.addTo u _)).append
          (.command ⟨text, statements⟩ _ ht) (.command ⟨text, statements⟩ _ hu)
      · exact (h.mono (.addTo t _) (.addTo u _)).outer

theorem Nest.Same.close (h : Nest.Same t u n m) (ht : 0 < t.size) (hu : 0 < u.size) :
    Advance.Same t u (n.close t) (m.close u) := by
  obtain ⟨inner, outer, command⟩ := n
  obtain ⟨inner', outer', command'⟩ := m
  obtain ⟨⟨hbracket, os, hn, hm⟩, houter, hcommand⟩ := h
  have hparallel : inner.block.parallel = inner'.block.parallel :=
    congrArg Bracket.isParallel hbracket
  cases houter with
  | nil => exact .closed (.refl t) (.refl u) hparallel hn hm
  | cons hframe hframes =>
    have hgroup := Table.Runs.push (b := inner.block) hn ht
    have hgroup' := Table.Runs.push (b := inner'.block) hm hu
    rw [← hparallel] at hgroup'
    refine .inside (.push t _) (.push u _) ⟨?_, ?_, hcommand⟩
    · exact (hframe.mono (.push t _) (.push u _)).append hgroup hgroup'
    · exact hframes.imp fun _ _ h => h.mono (.push t _) (.push u _)

theorem Nest.Same.step (h : Nest.Same t u n m) (ht : 0 < t.size) (hu : 0 < u.size) :
    Agree (Advance.Same t u) (n.step t pos line).result (m.step u pos line).result := by
  unfold Nest.step
  rw [← h.command, ← h.inner.bracket]
  cases n.command with
  | some text => exact h.readCommand ht hu
  | none =>
    dsimp only
    cases rightBracket? line with
    | some found =>
      dsimp only
      split
      · exact .ok (h.close ht hu)
      · exact .error _
    | none =>
      dsimp only
      cases leftBracket? line with
      | some b =>
        exact .ok (.inside (.refl t) (.refl u)
          ⟨Frame.same_new t u b, .cons h.inner h.outer, rfl⟩)
      | none =>
        dsimp only
        split
        · exact .ok (.inside (.refl t) (.refl u) h)
        · exact h.readCommand ht hu

end Nests

/-! ## Loads -/

/-- The loads are about the same. -/
inductive Mode.Same (t u : Table) : Mode → Mode → Prop
  | idle : Mode.Same t u .idle .idle
  | command (text : String) : Mode.Same t u (.command text) (.command text)
  | header (d : Declaration) : Mode.Same t u (.header d) (.header d)
  | body (owner : Option Declaration) {n m : Nest} (h : Nest.Same t u n m) :
    Mode.Same t u (.body owner n) (.body owner m)

namespace State

/-- Two loads side by side: the first one has a default block that is parallel or not, the second
one may have another, and the items of both run the same commands in the same order. -/
structure Same (parallel parallel' : Bool) (s t : State) : Prop where
  left : s.pipeline.blocks[Pipeline.defaultIndex]? = some (.empty parallel)
  right : t.pipeline.blocks[Pipeline.defaultIndex]? = some (.empty parallel')
  declarations : s.pipeline.declarations = t.pipeline.declarations
  names : ∀ name, s.pipeline.procedures.contains name = t.pipeline.procedures.contains name
  procedures : ∀ name x y, s.pipeline.procedures.get? name = some x →
    t.pipeline.procedures.get? name = some y →
    Procedure.Same s.pipeline.blocks t.pipeline.blocks x y
  items : ∃ os os', Table.Runs s.pipeline.blocks s.items.reverse os ∧
    Table.Runs t.pipeline.blocks t.items.reverse os' ∧
    Outline.leavesAll os = Outline.leavesAll os'
  assigned : s.assigned = t.assigned
  pending : s.pending = t.pending
  mode : Mode.Same s.pipeline.blocks t.pipeline.blocks s.mode t.mode

variable {parallel parallel' : Bool} {s t : State} {u v : Table} {c : Setting} {pos : Position}
  {file line text : String} {m m' : Mode} {xs ys : List Item} {os os' : List Outline}

namespace Same

theorem sizes (h : s.Same parallel parallel' t) :
    0 < s.pipeline.blocks.size ∧ 0 < t.pipeline.blocks.size :=
  ⟨(Array.getElem?_eq_some_iff.1 h.left).1, (Array.getElem?_eq_some_iff.1 h.right).1⟩

theorem enter (h : s.Same parallel parallel' t)
    (hmode : Mode.Same s.pipeline.blocks t.pipeline.blocks m m') :
    (s.enter m).Same parallel parallel' (t.enter m') :=
  { h with mode := hmode }

theorem drop (h : s.Same parallel parallel' t) : s.drop.Same parallel parallel' t.drop :=
  { h with pending := rfl }

theorem grow (h : s.Same parallel parallel' t) (hu : Table.Keeps s.pipeline.blocks u)
    (hv : Table.Keeps t.pipeline.blocks v) (hmode : Mode.Same u v m m') :
    ((s.withTable u).enter m).Same parallel parallel' ((t.withTable v).enter m') := by
  obtain ⟨os, os', hos, hos', hleaves⟩ := h.items
  exact
    { h with
      left := hu _ _ h.left
      right := hv _ _ h.right
      procedures := fun name x y hx hy => (h.procedures name x y hx hy).mono hu hv
      items := ⟨os, os', hos.mono hu, hos'.mono hv, hleaves⟩
      mode := hmode }

theorem appendDefault (h : s.Same parallel parallel' t)
    (hxs : Table.Runs s.pipeline.blocks xs os) (hys : Table.Runs t.pipeline.blocks ys os')
    (hleaves : Outline.leavesAll os = Outline.leavesAll os') :
    (s.appendDefault xs).Same parallel parallel' (t.appendDefault ys) := by
  obtain ⟨os₀, os₀', hos, hos', hleaves₀⟩ := h.items
  have hitems : ∃ os os', Table.Runs s.pipeline.blocks (s.appendDefault xs).items.reverse os ∧
      Table.Runs t.pipeline.blocks (t.appendDefault ys).items.reverse os' ∧
      Outline.leavesAll os = Outline.leavesAll os' := by
    refine ⟨os₀ ++ os, os₀' ++ os', ?_, ?_, ?_⟩
    · simpa [State.appendDefault] using hos.append hxs
    · simpa [State.appendDefault] using hos'.append hys
    · rw [Outline.leavesAll_append, Outline.leavesAll_append, hleaves₀, hleaves]
  exact { h with items := hitems, mode := .idle }

theorem readInclude (h : s.Same parallel parallel' t) (target : String) :
    Agree (State.Same parallel parallel') (s.readInclude c pos target).result
      (t.readInclude c pos target).result := by
  unfold State.readInclude
  rw [← h.assigned]
  generalize Files.Path.join (c.files.naming.directory pos.file) target = path
  dsimp only
  split
  · simp only [Logged.result_bind, Logged.result_log, Except.bind, Logged.result_pure]
    cases (readConfigFile path (c.files.read path) s.assigned).all.result with
    | error e => exact .error e
    | ok vars => exact .ok { h with assigned := rfl }
  split
  · exact .error _
  · exact .ok h

theorem readHeader (h : s.Same parallel parallel' t) (name : String) (bracket : Option Bracket) :
    Agree (State.Same parallel parallel') (s.readHeader pos name bracket).result
      (t.readHeader pos name bracket).result := by
  unfold State.readHeader
  rw [← h.declarations]
  cases s.pipeline.declarations.get? name with
  | some previous => exact .error _
  | none =>
    have hdeclared : s.pipeline.declarations.insert name pos =
        t.pipeline.declarations.insert name pos := by
      rw [h.declarations]
    cases bracket with
    | none => exact .ok { h with declarations := hdeclared, mode := .header _ }
    | some b =>
      exact .ok { h with declarations := hdeclared, mode := .body _ (Nest.same_new _ _ b) }

theorem readAttribute (h : s.Same parallel parallel' t) :
    Agree (State.Same parallel parallel') (s.readAttribute pos line).result
      (t.readAttribute pos line).result := by
  unfold State.readAttribute
  cases attribute? line with
  | some a => exact .ok { h with pending := congrArg (a :: ·) h.pending }
  | none => exact .ok h

theorem readCommand (h : s.Same parallel parallel' t) :
    Agree (State.Same parallel parallel') (s.readCommand pos text).result
      (t.readCommand pos text).result := by
  cases hscan : Shell.tokenize text with
  | complete statements =>
    have hs : (s.readCommand pos text).result = .ok _ := readCommand_ok_iff.2
      (.inr ⟨statements, _, hscan, Pipeline.defaultBlock_of_getElem? h.left, rfl⟩)
    have ht : (t.readCommand pos text).result = .ok _ := readCommand_ok_iff.2
      (.inr ⟨statements, _, hscan, Pipeline.defaultBlock_of_getElem? h.right, rfl⟩)
    rw [hs, ht]
    obtain ⟨hleft, hright⟩ := h.sizes
    -- Both default blocks run the command, whatever grouping they choose.
    have hgrown := h.grow (.addTo _ (Placement.ofCommand text statements parallel))
      (.addTo _ (Placement.ofCommand text statements parallel')) .idle
    refine .ok (hgrown.appendDefault (.command ⟨text, statements⟩ parallel hleft)
      (.command ⟨text, statements⟩ parallel' hright) ?_)
    rw [Element.leavesAll_outlines, Element.leavesAll_outlines]
  | unfinished =>
    rw [readCommand_ok_iff.2 (.inl ⟨hscan, rfl⟩), readCommand_ok_iff.2 (.inl ⟨hscan, rfl⟩)]
    exact .ok (h.enter (.command text))
  | malformed m =>
    unfold State.readCommand commandAt
    rw [hscan]
    exact .error _

/-- The blocks that close run the same and have the same owner. -/
theorem finishBody (h : s.Same parallel parallel' t) (owner : Option Declaration)
    {a b : Block} {os : List Outline} (hu : Table.Keeps s.pipeline.blocks u)
    (hv : Table.Keeps t.pipeline.blocks v) (hparallel : a.parallel = b.parallel)
    (ha : u.Runs a.items os) (hb : v.Runs b.items os) :
    Agree (State.Same parallel parallel') ((s.withTable u).finishBody owner a).result
      ((t.withTable v).finishBody owner b).result := by
  obtain ⟨hleft, hright⟩ := h.sizes
  have hgroup := Table.Runs.push ha (Nat.lt_of_lt_of_le hleft hu.size_le)
  have hgroup' := Table.Runs.push hb (Nat.lt_of_lt_of_le hright hv.size_le)
  rw [← hparallel] at hgroup'
  have hgrown := h.grow (hu.trans (.push u a)) (hv.trans (.push v b)) .idle
  cases owner with
  | none =>
    exact .ok (hgrown.appendDefault hgroup hgroup' rfl)
  | some d =>
    have hsame := h.names d.name
    cases hnew : s.pipeline.procedures.contains d.name with
    | true =>
      rw [finishBody_of_registered hnew, finishBody_of_registered (hsame.symm.trans hnew)]
      exact .error _
    | false =>
      have hs : ((s.withTable u).finishBody (some d) a).result = .ok _ :=
        finishBody_ok_iff.2 (.inr ⟨d, rfl, hnew, rfl⟩)
      have ht : ((t.withTable v).finishBody (some d) b).result = .ok _ :=
        finishBody_ok_iff.2 (.inr ⟨d, rfl, hsame.symm.trans hnew, rfl⟩)
      rw [hs, ht]
      refine .ok { hgrown with pending := rfl, names := ?_, procedures := ?_, mode := .idle }
      · intro name
        show (s.pipeline.procedures.insert d.name _).contains name =
          (t.pipeline.procedures.insert d.name _).contains name
        rw [ByName.contains_insert, ByName.contains_insert, h.names]
      · intro name x y hx hy
        replace hx : (s.pipeline.procedures.insert d.name _).get? name = some x := hx
        replace hy : (t.pipeline.procedures.insert d.name _).get? name = some y := hy
        rw [ByName.get?_insert] at hx hy
        split at hx
        · next hname =>
          rw [if_pos hname] at hy
          obtain rfl := Option.some.inj hx
          obtain rfl := Option.some.inj hy
          exact ⟨congrArg List.reverse h.pending, _, hgroup, hgroup'⟩
        · next hname =>
          rw [if_neg hname] at hy
          exact hgrown.procedures name x y hx hy

theorem stepIdle (h : s.Same parallel parallel' t) :
    Agree (State.Same parallel parallel') (s.stepIdle c pos line).result
      (t.stepIdle c pos line).result := by
  unfold State.stepIdle
  simp only [Logged.result_bind, result_dropPending, Except.bind]
  cases classify line with
  | «include» target => exact h.drop.readInclude target
  | header name bracket => exact h.readHeader name bracket
  | left b => exact .ok (h.drop.enter (.body none (Nest.same_new _ _ b)))
  | right found => exact .error _
  | empty => exact .ok h
  | «attribute» => exact h.readAttribute
  | comment => exact .ok h
  | «variable» name value =>
    exact .ok { h.drop with assigned := congrArg (·.insert name value) h.assigned }
  | command => exact h.drop.readCommand

theorem stepHeader (h : s.Same parallel parallel' t) (d : Declaration) :
    Agree (State.Same parallel parallel') (s.stepHeader d pos line).result
      (t.stepHeader d pos line).result := by
  unfold State.stepHeader
  split
  · exact .ok h
  split
  · exact .error _
  split
  · exact .ok h
  split
  · exact .ok (h.enter (.body (some d) (Nest.same_new _ _ _)))
  · exact .error _

theorem stepBody (h : s.Same parallel parallel' t) (owner : Option Declaration) {n m : Nest}
    (hnest : Nest.Same s.pipeline.blocks t.pipeline.blocks n m) :
    Agree (State.Same parallel parallel') (s.stepBody owner n pos line).result
      (t.stepBody owner m pos line).result := by
  obtain ⟨hleft, hright⟩ := h.sizes
  unfold State.stepBody
  simp only [Logged.result_bind]
  refine (hnest.step hleft hright).bind fun a b hadvance => ?_
  cases hadvance with
  | inside hu hv hinside => exact .ok (h.grow hu hv (.body owner hinside))
  | closed hu hv hparallel ha hb => exact h.finishBody owner hu hv hparallel ha hb

/-- **Steps side by side.** A line fails in both loads with the same error, or leads to the same. -/
theorem step (h : s.Same parallel parallel' t) :
    Agree (State.Same parallel parallel') (s.step c pos line).result
      (t.step c pos line).result := by
  have hmode := h.mode
  unfold State.step
  generalize s.mode = m at hmode ⊢
  generalize t.mode = m' at hmode ⊢
  cases hmode with
  | idle => exact h.stepIdle
  | command text => exact h.readCommand
  | header d => exact h.stepHeader d
  | body owner hnest => exact h.stepBody owner hnest

theorem run (h : s.Same parallel parallel' t) (n : Nat) (lines : List String) :
    Agree (State.Same parallel parallel') (s.run c file n lines).result
      (t.run c file n lines).result := by
  induction lines generalizing s t n with
  | nil => exact .ok h
  | cons line lines ih =>
    unfold State.run
    simp only [Logged.result_bind]
    exact h.step.bind fun s' t' h' => ih h' (n + 1)

end Same

theorem same_start (options : Options) (parallel parallel' : Bool) :
    (start { options with defaultParallel := parallel }).Same parallel parallel'
      (start { options with defaultParallel := parallel' }) where
  left := rfl
  right := rfl
  declarations := rfl
  names _ := rfl
  procedures := by
    rintro name x y ⟨⟩
  items := ⟨[], [], .nil _, .nil _, rfl⟩
  assigned := rfl
  pending := rfl
  mode := .idle

end State

/-! ## Documents -/

/-- Two documents differ in the grouping of the default block only: the first one's is parallel or
not, the second one's may be another. -/
structure Loaded.Regrouped (parallel parallel' : Bool) (d e : Loaded) : Prop where
  assigned : d.assigned = e.assigned
  declarations : d.pipeline.declarations = e.pipeline.declarations
  names : d.pipeline.procedures.names = e.pipeline.procedures.names
  /-- Each procedure has the same attributes and the same tree. -/
  procedures : ∀ name x y, d.pipeline.procedures.get? name = some x →
    e.pipeline.procedures.get? name = some y → x.attributes = y.attributes ∧
      ∃ tree, d.pipeline.tree x.blockIndex = .ok tree ∧ e.pipeline.tree y.blockIndex = .ok tree
  flags : ∃ b b', d.pipeline.defaultBlock = .ok b ∧ e.pipeline.defaultBlock = .ok b' ∧
    b.parallel = parallel ∧ b'.parallel = parallel'
  /-- The default blocks run the same commands in the same order. -/
  commands : ∃ os os', d.pipeline.members = .ok os ∧ e.pipeline.members = .ok os' ∧
    Outline.leavesAll os = Outline.leavesAll os'

theorem State.Same.regrouped {parallel parallel' : Bool} {s t : State}
    (h : s.Same parallel parallel' t) :
    Loaded.Regrouped parallel parallel'
      ⟨{ s.pipeline with
        blocks := s.pipeline.blocks.modify Pipeline.defaultIndex (·.append s.items.reverse) },
        s.assigned⟩
      ⟨{ t.pipeline with
        blocks := t.pipeline.blocks.modify Pipeline.defaultIndex (·.append t.items.reverse) },
        t.assigned⟩ := by
  have hfilled : ∀ {u : Table} {flag : Bool} (xs : List Item),
      u[Pipeline.defaultIndex]? = some (.empty flag) →
      (u.modify Pipeline.defaultIndex (·.append xs))[Pipeline.defaultIndex]? =
        some ⟨xs, flag⟩ := by
    intro u flag xs hempty
    rw [Array.getElem?_modify, if_pos rfl, hempty]
    rfl
  have hleft := hfilled s.items.reverse h.left
  have hright := hfilled t.items.reverse h.right
  have hextends : ∀ (u : Table) (xs : List Item),
      Table.Extends u (u.modify Pipeline.defaultIndex (·.append xs)) :=
    fun u xs => .modifyDefault u _
  have hsize : ∀ (u : Table) (xs : List Item),
      u.size ≤ (u.modify Pipeline.defaultIndex (·.append xs)).size :=
    fun u xs => Nat.le_of_eq Array.size_modify.symm
  refine ⟨h.assigned, h.declarations, ByName.names_eq_of_contains h.names, ?_, ?_, ?_⟩
  · intro name x y hx hy
    obtain ⟨hattributes, o, hox, hoy⟩ := h.procedures name x y hx hy
    exact ⟨hattributes, o.simplify,
      Pipeline.tree_of_outline (hox.outline (hextends _ _) (hsize _ _)),
      Pipeline.tree_of_outline (hoy.outline (hextends _ _) (hsize _ _))⟩
  · exact ⟨_, _, Pipeline.defaultBlock_of_getElem? hleft, Pipeline.defaultBlock_of_getElem? hright,
      rfl, rfl⟩
  · obtain ⟨os, os', hos, hos', hleaves⟩ := h.items
    refine ⟨os, os', Table.Runs.members ?_ (hextends _ _) (hsize _ _),
      Table.Runs.members ?_ (hextends _ _) (hsize _ _), hleaves⟩
    · rw [Table.defaultItems_eq hleft]
      exact hos
    · rw [Table.defaultItems_eq hright]
      exact hos'

theorem State.Same.finish {parallel parallel' : Bool} {s t : State}
    (h : s.Same parallel parallel' t) (last : Position) :
    Agree (Loaded.Regrouped parallel parallel') (s.finish last).result (t.finish last).result := by
  obtain ⟨hleft, hright⟩ := h.sizes
  have hmode := h.mode
  generalize hs : s.mode = m at hmode
  generalize ht : t.mode = m' at hmode
  cases hmode with
  | idle =>
    rw [State.finish_ok_iff.2 ⟨hs, hleft, rfl⟩, State.finish_ok_iff.2 ⟨ht, hright, rfl⟩]
    exact .ok h.regrouped
  | command text =>
    unfold State.finish
    rw [hs, ht]
    exact .error _
  | header d =>
    unfold State.finish
    rw [hs, ht]
    exact .error _
  | body owner hnest =>
    unfold State.finish Nest.endError
    rw [hs, ht]
    dsimp only
    rw [hnest.command, hnest.inner.bracket]
    exact .error _

/-- The setting with another choice for the default block. -/
def Setting.withParallel (c : Setting) (parallel : Bool) : Setting :=
  { c with options := { c.options with defaultParallel := parallel } }

/-- No line asks for that choice: it is in the default block from the start. -/
theorem State.run_withParallel (s : State) (c : Setting) (parallel : Bool) (file : String)
    (n : Nat) (lines : List String) :
    s.run (c.withParallel parallel) file n lines = s.run c file n lines := by
  induction lines generalizing s n with
  | nil => rfl
  | cons line lines ih =>
    unfold State.run
    simp only [ih]
    rfl

/-- **Grouping.** Whether the default block is parallel makes no difference to a load but in how the
commands of that block are grouped: with both choices it fails with the same error, or loads to the
same variables, declarations and procedures and to default blocks that run the same commands in the
same order. -/
theorem loadText_withParallel (c : Setting) (parallel parallel' : Bool) (file text : String) :
    Agree (Loaded.Regrouped parallel parallel')
      (loadText (c.withParallel parallel) file text).result
      (loadText (c.withParallel parallel') file text).result := by
  have hstart := State.same_start c.options parallel parallel'
  unfold loadText loadLines
  simp only [Logged.result_bind, State.run_withParallel]
  exact (hstart.run 0 (Text.lines text)).bind fun s t h => h.finish _

end Document

end Runbook
