import Runbook.Proofs.Document.Closing
import Runbook.Proofs.Pipeline.Layout

/-!
# What a block is read from

The lines between brackets spell commands and further pairs of brackets, with blank lines and
comments between them (`Spells`). A block is read exactly from such lines up to its own closing
bracket, and becomes what its elements are laid out as (`readBlock_ok_iff`). So every command comes
out once, in its place and in its group (`readBlock_elements`).
-/

namespace Runbook.Document

/-- The lines, which stand between brackets, spell some elements. -/
inductive Spells : List String → List Element → Prop
  | nil : Spells [] []
  /-- A blank line or a comment. -/
  | skip {line : String} {lines : List String} {xs : List Element}
    (hright : rightBracket? line = none) (hleft : leftBracket? line = none)
    (hline : isEmptyLine line = true ∨ isCommentLine line = true) (hrest : Spells lines xs) :
    Spells (line :: lines) xs
  /-- The lines of a command, up to the one that completes it. -/
  | command {first : String} {more lines : List String} {xs : List Element} (c : Command)
    (hstarts : Nest.StartsCommand first)
    (hcompletes : Completes c.text (Shell.firstLine first) more)
    (hscan : Shell.tokenize c.text = .complete c.statements) (hrest : Spells lines xs) :
    Spells (first :: (more ++ lines)) (.command c :: xs)
  /-- A pair of brackets and the lines between them. -/
  | nested {opening closing : String} {body lines : List String} {inner xs : List Element}
    (b : Bracket) (hopening : leftBracket? opening = some b) (hbody : Spells body inner)
    (hclosing : rightBracket? closing = some b) (hrest : Spells lines xs) :
    Spells (opening :: (body ++ closing :: lines)) (.nested b inner :: xs)

namespace Spells

variable {body rest tail more : List String} {line closing : String} {xs ys : List Element}
  {b b' : Bracket}

/-! ### What the first line says

Lines that spell elements, with a closing bracket behind them, may also be read from their first
line on: it says which element comes first, or that there is none. -/

theorem eq_nil_of_closing (h : Spells body xs) (hline : rightBracket? line = some b)
    (hlines : body ++ closing :: rest = line :: tail) : body = [] ∧ xs = [] := by
  cases h with
  | nil => exact ⟨rfl, rfl⟩
  | skip hright =>
    obtain ⟨rfl, -⟩ := List.cons_eq_cons.1 hlines
    cases hline.symm.trans hright
  | command c hstarts =>
    obtain ⟨rfl, -⟩ := List.cons_eq_cons.1 hlines
    cases hline.symm.trans hstarts.1
  | nested b hopening =>
    obtain ⟨rfl, -⟩ := List.cons_eq_cons.1 hlines
    cases hline.symm.trans (rightBracket?_of_leftBracket? hopening)

theorem exists_of_skip (h : Spells body xs) (hclosing : rightBracket? closing = some b)
    (hright : rightBracket? line = none) (hleft : leftBracket? line = none)
    (hline : isEmptyLine line = true ∨ isCommentLine line = true)
    (hlines : body ++ closing :: rest = line :: tail) :
    ∃ lines, body = line :: lines ∧ Spells lines xs ∧ lines ++ closing :: rest = tail := by
  cases h with
  | nil =>
    obtain ⟨rfl, -⟩ := List.cons_eq_cons.1 hlines
    cases hclosing.symm.trans hright
  | skip _ _ _ hrest =>
    obtain ⟨rfl, htail⟩ := List.cons_eq_cons.1 hlines
    exact ⟨_, rfl, hrest, htail⟩
  | command c hstarts =>
    obtain ⟨rfl, -⟩ := List.cons_eq_cons.1 hlines
    exact absurd hline hstarts.2.2
  | nested b hopening =>
    obtain ⟨rfl, -⟩ := List.cons_eq_cons.1 hlines
    cases hleft.symm.trans hopening

theorem exists_of_startsCommand (h : Spells body xs) (hclosing : rightBracket? closing = some b)
    (hline : Nest.StartsCommand line) (hlines : body ++ closing :: rest = line :: tail) :
    ∃ c more lines ys, body = line :: (more ++ lines) ∧ xs = .command c :: ys ∧
      Completes c.text (Shell.firstLine line) more ∧
      Shell.tokenize c.text = .complete c.statements ∧ Spells lines ys ∧
      more ++ (lines ++ closing :: rest) = tail := by
  cases h with
  | nil =>
    obtain ⟨rfl, -⟩ := List.cons_eq_cons.1 hlines
    cases hclosing.symm.trans hline.1
  | skip _ _ hskip =>
    obtain ⟨rfl, -⟩ := List.cons_eq_cons.1 hlines
    exact absurd hskip hline.2.2
  | command c _ hcompletes hscan hrest =>
    obtain ⟨rfl, htail⟩ := List.cons_eq_cons.1 hlines
    rw [List.append_eq, List.append_assoc] at htail
    exact ⟨c, _, _, _, rfl, rfl, hcompletes, hscan, hrest, htail⟩
  | nested b hopening =>
    obtain ⟨rfl, -⟩ := List.cons_eq_cons.1 hlines
    cases hline.2.1.symm.trans hopening

theorem exists_of_opening (h : Spells body xs) (hclosing : rightBracket? closing = some b)
    (hline : leftBracket? line = some b') (hlines : body ++ closing :: rest = line :: tail) :
    ∃ inside closing' lines inner ys, body = line :: (inside ++ closing' :: lines) ∧
      xs = .nested b' inner :: ys ∧ Spells inside inner ∧ rightBracket? closing' = some b' ∧
      Spells lines ys ∧ inside ++ closing' :: (lines ++ closing :: rest) = tail := by
  cases h with
  | nil =>
    obtain ⟨rfl, -⟩ := List.cons_eq_cons.1 hlines
    cases hclosing.symm.trans (rightBracket?_of_leftBracket? hline)
  | skip _ hleft =>
    obtain ⟨rfl, -⟩ := List.cons_eq_cons.1 hlines
    cases hleft.symm.trans hline
  | command c hstarts =>
    obtain ⟨rfl, -⟩ := List.cons_eq_cons.1 hlines
    cases hstarts.2.1.symm.trans hline
  | nested b hopening hbody hcloser hrest =>
    obtain ⟨rfl, htail⟩ := List.cons_eq_cons.1 hlines
    obtain rfl := Option.some.inj (hopening.symm.trans hline)
    rw [List.append_eq, List.append_assoc, List.cons_append] at htail
    exact ⟨_, _, _, _, _, rfl, rfl, hbody, hcloser, hrest, htail⟩

theorem unique_of_append {body' rest' : List String} {closing' : String} (h : Spells body xs)
    (h' : Spells body' ys) (hclosing : rightBracket? closing = some b)
    (hclosing' : rightBracket? closing' = some b')
    (hlines : body ++ closing :: rest = body' ++ closing' :: rest') :
    body = body' ∧ xs = ys ∧ closing :: rest = closing' :: rest' := by
  induction h generalizing body' ys rest rest' closing closing' b b' with
  | nil =>
    obtain ⟨rfl, rfl⟩ := h'.eq_nil_of_closing hclosing hlines.symm
    exact ⟨rfl, rfl, hlines⟩
  | skip hright hleft hline _ ih =>
    obtain ⟨lines, rfl, hrest, htail⟩ :=
      h'.exists_of_skip hclosing' hright hleft hline hlines.symm
    obtain ⟨rfl, rfl, hend⟩ := ih hrest hclosing hclosing' htail.symm
    exact ⟨rfl, rfl, hend⟩
  | @command first more lines xs c hstarts hcompletes hscan _ ih =>
    obtain ⟨c', more', lines', ys', rfl, rfl, hcompletes', hscan', hrest, htail⟩ :=
      h'.exists_of_startsCommand hclosing' hstarts hlines.symm
    rw [List.append_eq, List.append_assoc] at htail
    obtain ⟨htext, rfl, hbehind⟩ := hcompletes.unique hcompletes' hscan hscan' htail.symm
    obtain ⟨rfl, rfl, hend⟩ := ih hrest hclosing hclosing' hbehind
    obtain ⟨text, statements⟩ := c
    obtain ⟨text', statements'⟩ := c'
    obtain rfl : text = text' := htext
    obtain rfl := Shell.Outcome.complete.inj (hscan.symm.trans hscan')
    exact ⟨rfl, rfl, hend⟩
  | @nested opening closer body lines inner xs b hopening hbody hcloser _ ihbody ih =>
    obtain ⟨inside, closer', lines', inner', ys', rfl, rfl, hbody', hcloser', hrest, htail⟩ :=
      h'.exists_of_opening hclosing' hopening hlines.symm
    rw [List.append_eq, List.append_assoc, List.cons_append] at htail
    obtain ⟨rfl, rfl, hbehind⟩ := ihbody hbody' hcloser hcloser' htail.symm
    obtain ⟨rfl, hafter⟩ := List.cons_eq_cons.1 hbehind
    obtain ⟨rfl, rfl, hend⟩ := ih hrest hclosing hclosing' hafter
    exact ⟨rfl, rfl, hend⟩

theorem unique {lines : List String} (h : Spells lines xs) (h' : Spells lines ys) : xs = ys := by
  have hclosing : rightBracket? Bracket.sequential.closing = some .sequential := by decide
  have hlines : lines ++ [Bracket.sequential.closing] = lines ++ [Bracket.sequential.closing] := rfl
  exact (h.unique_of_append h' hclosing hclosing hlines).2.1

end Spells

namespace Nest

variable {n n' : Nest} {t t' : Table} {line text : String} {lines rest : List String} {b : Block}

/-- The open blocks when some elements are read into the innermost one. -/
def after (n : Nest) (t : Table) (xs : List Element) : Nest :=
  ⟨n.inner.append (Element.layoutAll n.inner.bracket.isParallel t xs).items, n.outer, none⟩

theorem after_nil (h : n.command = none) (t : Table) : n.after t [] = n := by
  obtain ⟨inner, outer, command⟩ := n
  obtain rfl : command = none := h
  rw [after, Element.layoutAll, Frame.append_nil]

theorem after_cons (n : Nest) (t : Table) (x : Element) (xs : List Element) :
    n.after t (x :: xs) =
      after ⟨n.inner.append (x.layout n.inner.bracket.isParallel t).items, n.outer, none⟩
        (x.layout n.inner.bracket.isParallel t).table xs := by
  rw [after, after, Element.layoutAll, Frame.append_append]
  rfl

theorem after_new (b : Bracket) (fs : List Frame) (t : Table) (xs : List Element) :
    (after ⟨.new b, fs, none⟩ t xs).inner.block = Element.blockOf b xs t := by
  rw [after, Frame.block_append, Frame.block_new]
  rfl

/-! ## Lines that spell elements -/

/-- Lines that spell elements lead to the blocks in which these are read. -/
theorem follows_of_spells {xs : List Element} (h : Spells lines xs) (hcommand : n.command = none)
    (t : Table) :
    n.Follows lines t (n.after t xs) (Element.layoutAll n.inner.bracket.isParallel t xs).table := by
  induction h generalizing n t with
  | nil =>
    rw [after_nil hcommand, Element.layoutAll]
    exact .nil n t
  | skip hright hleft hline _ ih => exact .cons (.skip hcommand hright hleft hline) (ih hcommand t)
  | command c hstarts hcompletes hscan _ ih =>
    have hfollows := follows_of_completes (n := n) (t := t) (.inr ⟨hcommand, hstarts, rfl⟩)
      hcompletes hscan
    rw [after_cons, Element.layoutAll, Element.layout]
    exact hfollows.append (ih rfl _)
  | @nested opening closing body lines inner xs b hopening hbody hclosing _ ihbody ih =>
    have hinside := ihbody (n := ⟨.new b, n.inner :: n.outer, none⟩) rfl t
    have hopens : n.Moves opening t (.inside ⟨.new b, n.inner :: n.outer, none⟩ t) :=
      .opening b hcommand (rightBracket?_of_leftBracket? hopening) hopening
    have hcloses := Moves.nested (t := (Element.layoutAll b.isParallel t inner).table)
      (n := after ⟨.new b, n.inner :: n.outer, none⟩ t inner) n.inner n.outer rfl rfl hclosing
    rw [after_new] at hcloses
    rw [after_cons, Element.layoutAll, Element.layout]
    exact .cons hopens (hinside.append (.cons hcloses (ih rfl _)))

theorem moves_closed_after {closing : String} {b : Bracket} (t : Table) (xs : List Element)
    (hclosing : rightBracket? closing = some b) :
    ((Nest.new b).after t xs).Moves closing (Element.layoutAll b.isParallel t xs).table
      (.closed (Element.blockOf b xs t) (Element.layoutAll b.isParallel t xs).table) := by
  rw [← show ((Nest.new b).after t xs).inner.block = Element.blockOf b xs t from
    after_new b [] t xs]
  exact .closing rfl rfl hclosing

/-- Lines that go on with a command, or begin one, complete it before the block ends. -/
theorem Closes.exists_command (h : n.Closes t (line :: lines) b t') (hreads : n.Reads line text) :
    ∃ (c : Command) (more rest : List String), lines = more ++ rest ∧
      Completes c.text text more ∧ Shell.tokenize c.text = .complete c.statements ∧
      Closes
        ⟨n.inner.append ((Element.command c).layout n.inner.bracket.isParallel t).items, n.outer,
          none⟩
        ((Element.command c).layout n.inner.bracket.isParallel t).table rest b t' := by
  induction lines generalizing n line text with
  | nil =>
    cases h with
    | last hmove => rcases hmove.of_reads hreads with ⟨-, ha⟩ | ⟨_, -, ha⟩ <;> cases ha
    | next hmove hrest => cases hrest
  | cons l lines ih =>
    cases h with
    | last hmove => rcases hmove.of_reads hreads with ⟨-, ha⟩ | ⟨_, -, ha⟩ <;> cases ha
    | next hmove hrest =>
      rcases hmove.of_reads hreads with ⟨hunfinished, ha⟩ | ⟨statements, hscan, ha⟩
      · obtain ⟨rfl, rfl⟩ := Advance.inside.inj ha
        obtain ⟨c, more, rest, rfl, hcompletes, hscan, hcloses⟩ := ih hrest (.inl ⟨text, rfl, rfl⟩)
        exact ⟨c, l :: more, rest, rfl, ⟨hunfinished, hcompletes⟩, hscan, hcloses⟩
      · obtain ⟨rfl, rfl⟩ := Advance.inside.inj ha
        refine ⟨⟨text, statements⟩, [], l :: lines, rfl, rfl, hscan, ?_⟩
        rw [Element.layout]
        exact hrest

theorem Moves.unique {a a' : Advance} (h : n.Moves line t a) (h' : n.Moves line t a') :
    a = a' := by
  have hstep : (n.step t ⟨"", 0⟩ line).result = .ok a := step_ok_iff.2 h
  exact Except.ok.inj (hstep.symm.trans (step_ok_iff.2 h'))

/-- The lines begin with lines that spell elements and the closing bracket of the innermost block,
and from this bracket on they end the outermost block. -/
def BeginsSpelled (n : Nest) (t : Table) (lines : List String) (b : Block) (t' : Table) : Prop :=
  ∃ body closing rest xs, lines = body ++ closing :: rest ∧ Spells body xs ∧
    rightBracket? closing = some n.inner.bracket ∧
    (n.after t xs).Closes (Element.layoutAll n.inner.bracket.isParallel t xs).table
      (closing :: rest) b t'

theorem beginsSpelled_of_closing (h : n.Closes t (line :: lines) b t') (hcommand : n.command = none)
    (hline : rightBracket? line = some n.inner.bracket) :
    n.BeginsSpelled t (line :: lines) b t' := by
  refine ⟨[], line, lines, [], rfl, .nil, hline, ?_⟩
  rwa [after_nil hcommand, Element.layoutAll]

theorem BeginsSpelled.skip (h : n.BeginsSpelled t lines b t') (hright : rightBracket? line = none)
    (hleft : leftBracket? line = none)
    (hline : isEmptyLine line = true ∨ isCommentLine line = true) :
    n.BeginsSpelled t (line :: lines) b t' := by
  obtain ⟨body, closing, rest, xs, rfl, hspells, hclosing, hcloses⟩ := h
  exact ⟨line :: body, closing, rest, xs, rfl, .skip hright hleft hline hspells, hclosing, hcloses⟩

theorem BeginsSpelled.command {c : Command} {more : List String}
    (h : BeginsSpelled
      ⟨n.inner.append ((Element.command c).layout n.inner.bracket.isParallel t).items, n.outer,
        none⟩
      ((Element.command c).layout n.inner.bracket.isParallel t).table lines b t')
    (hstarts : StartsCommand line) (hcompletes : Completes c.text (Shell.firstLine line) more)
    (hscan : Shell.tokenize c.text = .complete c.statements) :
    n.BeginsSpelled t (line :: (more ++ lines)) b t' := by
  obtain ⟨body, closing, rest, xs, rfl, hspells, hclosing, hcloses⟩ := h
  refine ⟨line :: (more ++ body), closing, rest, .command c :: xs, by simp,
    .command c hstarts hcompletes hscan hspells, hclosing, ?_⟩
  rw [after_cons, Element.layoutAll]
  exact hcloses

theorem BeginsSpelled.nested {b' : Bracket} {inside : List String} {inner : List Element}
    {closing : String}
    (h : BeginsSpelled
      ⟨n.inner.append ((Element.nested b' inner).layout n.inner.bracket.isParallel t).items,
        n.outer, none⟩
      ((Element.nested b' inner).layout n.inner.bracket.isParallel t).table lines b t')
    (hopening : leftBracket? line = some b') (hinner : Spells inside inner)
    (hclosing : rightBracket? closing = some b') :
    n.BeginsSpelled t (line :: (inside ++ closing :: lines)) b t' := by
  obtain ⟨body, last, rest, xs, rfl, hspells, hlast, hcloses⟩ := h
  refine ⟨line :: (inside ++ closing :: body), last, rest, .nested b' inner :: xs, by simp,
    .nested b' hopening hinner hclosing hspells, hlast, ?_⟩
  rw [after_cons, Element.layoutAll]
  exact hcloses

/-- **Elements.** Lines that end the outermost block begin with lines that spell elements and the
closing bracket of the innermost block. -/
theorem Closes.beginsSpelled (h : n.Closes t lines b t') (hcommand : n.command = none) :
    n.BeginsSpelled t lines b t' := by
  -- What stands behind a command or a nested pair is shorter than the lines, but no tail of them
  -- that an induction on the run would give.
  induction hlength : lines.length using Nat.strongRecOn generalizing n t lines with
  | ind length ih =>
  subst hlength
  cases h with
  | last hmove =>
    cases id hmove with
    | closing _ _ hline => exact beginsSpelled_of_closing (.last hmove) hcommand hline
  | @next _ n' _ u _ line lines _ hmove hrest =>
    have hread : ∀ text, n.Reads line text → n.BeginsSpelled t (line :: lines) b t' := by
      intro text hreads
      obtain ⟨c, more, behind, rfl, hcompletes, hscan, hcloses⟩ :=
        (Closes.next hmove hrest).exists_command hreads
      rcases hreads with ⟨v, hv, -⟩ | ⟨-, hstarts, rfl⟩
      · cases hcommand.symm.trans hv
      have hbehind := ih behind.length
        (by rw [List.length_cons, List.length_append]; omega) hcloses rfl rfl
      exact hbehind.command hstarts hcompletes hscan
    cases id hmove with
    | skip _ hright hleft hline =>
      exact (ih lines.length (by simp) hrest hcommand rfl).skip hright hleft hline
    | unfinished text hreads => exact hread text hreads
    | command text statements hreads => exact hread text hreads
    | opening b' _ hright hopening =>
      obtain ⟨inside, closing, behind, inner, rfl, hinner, hclosing, hcloses⟩ :=
        ih lines.length (by simp) hrest rfl rfl
      -- The inner block ends at its bracket, and the rest is read into the block around it.
      have hnested := Moves.nested (t := (Element.layoutAll b'.isParallel t inner).table)
        (n := after ⟨.new b', n.inner :: n.outer, none⟩ t inner) n.inner n.outer rfl rfl hclosing
      rw [after_new] at hnested
      cases hcloses with
      | last hmove' => cases hmove'.unique hnested
      | next hmove' hbehind =>
        obtain ⟨rfl, rfl⟩ := Advance.inside.inj (hmove'.unique hnested)
        have hafter := ih behind.length
          (by simp only [List.length_append, List.length_cons]; omega) hbehind rfl rfl
        exact BeginsSpelled.nested hafter hopening hinner hclosing
    | nested f fs _ houter hline =>
      exact beginsSpelled_of_closing (.next hmove hrest) hcommand hline

/-! ## Reading -/

variable {file : String} {seen : List String}

/-- A block that is read ends with a line of the rest. -/
theorem closes_of_readNest (h : (readNest file n t seen lines).outcome.result = .ok b) :
    n.Closes t lines b (readNest file n t seen lines).table := by
  induction lines generalizing n t seen with
  | nil => cases h
  | cons line lines ih =>
    unfold readNest at h ⊢
    dsimp only at h ⊢
    cases hstep : (n.step t ⟨file, seen.length + 1⟩ line).result with
    | error e =>
      rw [hstep] at h
      cases h
    | ok a =>
      have hmove := step_ok_iff.1 hstep
      rw [hstep] at h
      cases a with
      | inside n' u => exact .next hmove (ih h)
      | closed b' u =>
        obtain rfl := Except.ok.inj h
        exact .last hmove

/-- Reading goes on behind lines that lead to other open blocks. -/
theorem exists_readNest_of_follows (file : String) (h : n.Follows lines t n' t') (seen rest : List String) :
    ∃ records, readNest file n t seen (lines ++ rest) =
      (readNest file n' t' (lines.reverse ++ seen) rest).withRecords records := by
  induction h generalizing seen with
  | nil n t => exact ⟨[], rfl⟩
  | @cons line lines n n' n'' t t' t'' hmove _ ih =>
    obtain ⟨records, hrecords⟩ := ih (line :: seen)
    refine ⟨(n.step t ⟨file, seen.length + 1⟩ line).records ++ records, ?_⟩
    have hstep : (n.step t ⟨file, seen.length + 1⟩ line).result = .ok (.inside n' t') :=
      step_ok_iff.2 hmove
    rw [List.cons_append, readNest]
    simp only [hstep, hrecords, List.reverse_cons, List.append_assoc]
    simp [Reading.withRecords]

end Nest

theorem readBlock_of_spells {s : Source} {body rest : List String} {closing : String} {b : Bracket}
    {xs : List Element} (t : Table) (hlines : s.rest = body ++ closing :: rest)
    (hspells : Spells body xs) (hclosing : rightBracket? closing = some b) :
    (readBlock s t b).outcome.result = .ok (Element.blockOf b xs t) ∧
      (readBlock s t b).source = ⟨s.file, closing :: (body.reverse ++ s.seen), rest⟩ ∧
      (readBlock s t b).table = (Element.layoutAll b.isParallel t xs).table := by
  have hfollows : (Nest.new b).Follows body t ((Nest.new b).after t xs)
      (Element.layoutAll b.isParallel t xs).table :=
    Nest.follows_of_spells hspells rfl t
  obtain ⟨records, hread⟩ := Nest.exists_readNest_of_follows s.file hfollows s.seen
    (closing :: rest)
  have hstep : (((Nest.new b).after t xs).step (Element.layoutAll b.isParallel t xs).table
      ⟨s.file, (body.reverse ++ s.seen).length + 1⟩ closing).result =
      .ok (.closed (Element.blockOf b xs t) (Element.layoutAll b.isParallel t xs).table) :=
    Nest.step_ok_iff.2 (Nest.moves_closed_after t xs hclosing)
  unfold readBlock
  rw [hlines, hread, readNest]
  simp only [hstep]
  exact ⟨rfl, rfl, rfl⟩

/-- **Reading blocks.** A block is read exactly from lines that spell elements and its closing
bracket, and becomes what the elements are laid out as. -/
theorem readBlock_ok_iff {s : Source} {t : Table} {b : Bracket} {block : Block} :
    (readBlock s t b).outcome.result = .ok block ↔
      ∃ body closing rest xs, s.rest = body ++ closing :: rest ∧ Spells body xs ∧
        rightBracket? closing = some b ∧ block = Element.blockOf b xs t := by
  constructor
  · intro h
    obtain ⟨body, closing, rest, xs, hlines, hspells, hclosing, -⟩ :=
      (Nest.closes_of_readNest h).beginsSpelled rfl
    have hread := (readBlock_of_spells t hlines hspells hclosing).1
    exact ⟨body, closing, rest, xs, hlines, hspells, hclosing, Except.ok.inj (h.symm.trans hread)⟩
  · rintro ⟨body, closing, rest, xs, hlines, hspells, hclosing, rfl⟩
    exact (readBlock_of_spells t hlines hspells hclosing).1

/-! ## Nothing is lost -/

/-- The block runs what stands between a pair of brackets, as this pair says: when it is parallel,
each item is one nested pair or one command with statements. -/
structure IsBlockOf (p : Pipeline) (b : Bracket) (xs : List Element) (block : Block) : Prop where
  parallel : block.parallel = b.isParallel
  outlines : block.items.mapM p.itemOutline = .ok (Element.outlinesAll b.isParallel xs)
  each : b = .parallel → List.Forall₂
    (fun item x => ∃ o, Element.outlines true x = [o] ∧ p.itemOutline item = .ok o)
    block.items (xs.filter Element.runs)

theorem isBlockOf_blockOf {p : Pipeline} {b : Bracket} {xs : List Element} {t : Table}
    (h : (Element.layoutAll b.isParallel t xs).table.Keeps p.blocks) :
    IsBlockOf p b xs (Element.blockOf b xs t) := by
  have hsize : (Element.layoutAll b.isParallel t xs).table.size ≤ p.depthBound :=
    Nat.le_succ_of_le h.size_le
  refine ⟨rfl, Element.mapM_outline_layoutAll xs h hsize, ?_⟩
  rintro rfl
  exact Element.forall₂_layoutAll xs h hsize

/-- **Nothing is lost.** When a block is read, the lines up to its closing bracket spell certain
elements. In the table afterwards the block runs the shell commands of all commands between its
brackets, each once and in the order in which they were read, and is a block of its pair of
brackets. Each new block is one of a nested pair, or a sequential one of the several statements of
one command. -/
theorem readBlock_elements {p q : Pipeline} {s : Source} {b : Bracket} {block : Block}
    (h : (readBlock s p.blocks b).outcome.result = .ok block)
    (hq : q.blocks = (readBlock s p.blocks b).table) :
    ∃ body closing xs, s.rest = body ++ closing :: (readBlock s p.blocks b).source.rest ∧
      Spells body xs ∧ (∀ ys, Spells body ys → ys = xs) ∧ rightBracket? closing = some b ∧
      (∃ os, block.items.mapM q.itemOutline = .ok os ∧
        Outline.leavesAll os = ((Element.commandsAll xs).flatMap Command.lines).map .shell) ∧
      IsBlockOf q b xs block ∧
      ∀ i block', p.blocks.size ≤ i → q.blocks[i]? = some block' →
        (∃ pair ∈ Element.pairsAll xs, IsBlockOf q pair.1 pair.2 block') ∨
          ∃ c ∈ Element.commandsAll xs, 1 < c.statements.length ∧
            block' = ⟨c.statements.map .ofStatement, false⟩ := by
  obtain ⟨body, closing, rest, xs, hlines, hspells, hclosing, rfl⟩ := readBlock_ok_iff.1 h
  obtain ⟨-, hsource, htable⟩ := readBlock_of_spells p.blocks hlines hspells hclosing
  rw [htable] at hq
  have hblock : IsBlockOf q b xs (Element.blockOf b xs p.blocks) :=
    isBlockOf_blockOf (hq ▸ .refl _)
  refine ⟨body, closing, xs, by rw [hsource]; exact hlines, hspells,
    fun ys hys => hys.unique hspells, hclosing,
    ⟨_, hblock.outlines, Element.leavesAll_outlinesAll xs _⟩, hblock, fun i block' hi hget => ?_⟩
  rw [hq] at hget
  rcases Element.origin_layoutAll xs hi hget with ⟨pair, hpair, t, hkeeps, rfl⟩ |
    ⟨c, hc, hlength, rfl⟩
  · rw [← hq] at hkeeps
    exact .inl ⟨pair, hpair, isBlockOf_blockOf hkeeps⟩
  · exact .inr ⟨c, hc, hlength, rfl⟩

/-- A parallel block with a wrapped command, nested blocks, a command of two lines, and a command
that stays whole. -/
def bodySource : Source :=
  ⟨"doc.pipe", ["\x7b\x7b"], ["\t# all", "\ta; b", "\t\x7b", "\t\tc", "\t\t\x7d; d", "\t\x7d",
    "\techo 'x", "y'", "", "\t\x7b\x7b", "\t\x7d\x7d", "\x7d\x7d", "e"]⟩

/-- What the block becomes behind an empty default block. -/
def bodyBlock : Block :=
  ⟨[.block 1, .block 2, .ofLine "echo 'x\ny'", .block 3], true⟩

def bodyPipeline : Pipeline :=
  ⟨#[.empty false, ⟨[.ofLine "a", .ofLine "b"], false⟩, ⟨[.ofLine "c", .ofLine "\x7d; d"], false⟩,
    .empty true], .empty, .empty⟩

theorem readBlock_elements_bodySource :
    (readBlock bodySource #[.empty false] .parallel).outcome.result = .ok bodyBlock ∧
      ∃ body closing xs, bodySource.rest = body ++ closing :: ["e"] ∧ Spells body xs ∧
        (∀ ys, Spells body ys → ys = xs) ∧ rightBracket? closing = some .parallel ∧
        (∃ os, bodyBlock.items.mapM bodyPipeline.itemOutline = .ok os ∧
          Outline.leavesAll os = ((Element.commandsAll xs).flatMap Command.lines).map .shell) ∧
        IsBlockOf bodyPipeline .parallel xs bodyBlock ∧
        ∀ i block, 1 ≤ i → bodyPipeline.blocks[i]? = some block →
          (∃ pair ∈ Element.pairsAll xs, IsBlockOf bodyPipeline pair.1 pair.2 block) ∨
            ∃ c ∈ Element.commandsAll xs, 1 < c.statements.length ∧
              block = ⟨c.statements.map .ofStatement, false⟩ := by
  have hread : (readBlock bodySource #[.empty false] .parallel).outcome.result = .ok bodyBlock := by
    decide +kernel
  have htable : bodyPipeline.blocks = (readBlock bodySource #[.empty false] .parallel).table := by
    decide +kernel
  have hrest : (readBlock bodySource #[.empty false] .parallel).source.rest = ["e"] := by
    decide +kernel
  have hbody := readBlock_elements (p := .empty false) (q := bodyPipeline) hread htable
  rw [show (Pipeline.empty false).blocks = #[.empty false] from rfl, hrest] at hbody
  exact ⟨hread, hbody⟩

end Runbook.Document
