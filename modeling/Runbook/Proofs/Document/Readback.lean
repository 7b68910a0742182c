import Mathlib.Data.List.Basic
import Runbook.Proofs.Document.Rereadable
import Runbook.Proofs.Shell.Slices

/-!
# Commands that read back

When the text of a command is read as itself. A shell command must not be a lone bracket, its own
lines must make it up, it must stay one item, and that item must not be promoted (`ReadsBack`). The
line of a call always reads back as the call (`readsAs_call`).
-/

namespace Runbook

namespace Document

open Runbook.Text (isBlank)

/-- The lines of the text, read one by one, leave a command unfinished up to the last of them, and
then make up the text. -/
def JoinsToItself (line : String) : Prop :=
  ∃ texts, Shell.joinedTexts (Text.lines line) = texts ++ [line] ∧
    ∀ text ∈ texts, Shell.tokenize text = .unfinished

/-- A shell command whose text is read as itself wherever a block holds it. -/
structure ReadsBack (known : String → Bool) (line : String) : Prop where
  bare : ¬IsBracketText line
  trimmed : Text.trimmed line = line
  joins : JoinsToItself line
  placed : ∃ statements, Shell.tokenize line = .complete statements ∧
    ∀ parallel, Placement.ofCommand line statements parallel = .items [.ofLine line]
  stays : (Item.ofLine line).promote known = .ok none

instance (line : String) : Decidable (JoinsToItself line) :=
  let texts := Shell.joinedTexts (Text.lines line)
  decidable_of_iff
    (texts.getLast? = some line ∧ ∀ text ∈ texts.dropLast, Shell.tokenize text = .unfinished)
    (by
      constructor
      · rintro ⟨hlast, hunfinished⟩
        exact ⟨_, (List.dropLast_append_getLast? line hlast).symm, hunfinished⟩
      · rintro ⟨texts', htexts, hunfinished⟩
        rw [show texts = texts' ++ [line] from htexts, List.getLast?_concat, List.dropLast_concat]
        exact ⟨rfl, hunfinished⟩)

instance (outcome : Shell.Outcome) (line : String) :
    Decidable (∃ statements, outcome = .complete statements ∧
      ∀ parallel, Placement.ofCommand line statements parallel = .items [.ofLine line]) :=
  match outcome with
  | .complete statements =>
    decidable_of_iff
      (∀ parallel, Placement.ofCommand line statements parallel = .items [.ofLine line]) (by simp)
  | .unfinished => .isFalse (by simp)
  | .malformed _ => .isFalse (by simp)

instance (known : String → Bool) (line : String) : Decidable (ReadsBack known line) :=
  decidable_of_iff
    (¬IsBracketText line ∧ Text.trimmed line = line ∧ JoinsToItself line ∧
      (∃ statements, Shell.tokenize line = .complete statements ∧
        ∀ parallel, Placement.ofCommand line statements parallel = .items [.ofLine line]) ∧
      (Item.ofLine line).promote known = .ok none)
    ⟨fun h => ⟨h.1, h.2.1, h.2.2.1, h.2.2.2.1, h.2.2.2.2⟩,
      fun h => ⟨h.bare, h.trimmed, h.joins, h.placed, h.stays⟩⟩

/-! ## Lines that make up a command -/

theorem completes_of_scanl {line text : String} {rest texts : List String}
    (h : rest.scanl Shell.joinLine text = texts ++ [line])
    (hunfinished : ∀ t ∈ texts, Shell.tokenize t = .unfinished) : Completes line text rest := by
  induction rest generalizing text texts with
  | nil =>
    cases texts with
    | nil =>
      rw [List.scanl_nil, List.nil_append] at h
      exact (List.cons_eq_cons.1 h).1
    | cons t texts => simp at h
  | cons l rest ih =>
    rw [List.scanl_cons] at h
    cases texts with
    | nil =>
      have := congrArg List.length h
      simp at this
    | cons t texts =>
      obtain ⟨rfl, hrest⟩ := List.cons_eq_cons.1 h
      obtain ⟨ht, htexts⟩ := List.forall_mem_cons.1 hunfinished
      exact ⟨ht, ih hrest htexts⟩

theorem exists_scanl_of_completes {line text : String} {rest : List String}
    (h : Completes line text rest) : ∃ texts, rest.scanl Shell.joinLine text = texts ++ [line] ∧
      ∀ t ∈ texts, Shell.tokenize t = .unfinished := by
  induction rest generalizing text with
  | nil =>
    obtain rfl : text = line := h
    exact ⟨[], rfl, by simp⟩
  | cons l rest ih =>
    obtain ⟨hunfinished, hrest⟩ := h
    obtain ⟨texts, htexts, hall⟩ := ih hrest
    refine ⟨text :: texts, ?_, List.forall_mem_cons.2 ⟨hunfinished, hall⟩⟩
    rw [List.scanl_cons, htexts, List.cons_append]

theorem IsJoined.joinsToItself {line : String} (h : IsJoined line) : JoinsToItself line := by
  obtain ⟨first, rest, hlines, hcompletes⟩ := h
  obtain ⟨texts, htexts, hall⟩ := exists_scanl_of_completes hcompletes
  refine ⟨texts, ?_, hall⟩
  rw [hlines]
  exact htexts

theorem JoinsToItself.isJoined {line : String} (h : JoinsToItself line) : IsJoined line := by
  obtain ⟨texts, htexts, hunfinished⟩ := h
  cases hlines : Text.lines line with
  | nil =>
    rw [hlines] at htexts
    simp [Shell.joinedTexts] at htexts
  | cons first rest =>
    rw [hlines] at htexts
    exact ⟨first, rest, hlines, completes_of_scanl htexts hunfinished⟩

/-! ## Shell commands -/

variable {known : String → Bool} {line : String}

theorem exists_action_ofLine (line : String) :
    ∃ head words, (Item.ofLine line).action = .shell (Text.trimmed line) head words := by
  unfold Item.ofLine
  generalize Text.trimmed line = text
  dsimp only
  split
  · exact exists_action_ofStatements text _
  · exact ⟨_, _, rfl⟩

theorem ofLine_of_tokenize {statements : List Shell.Statement} (htrimmed : Text.trimmed line = line)
    (hscan : Shell.tokenize line = .complete statements) :
    Item.ofLine line = .ofStatements line statements := by
  unfold Item.ofLine
  simp only [htrimmed, hscan]

theorem ReadsBack.readsAs (h : ReadsBack known line) : ReadsAs known line (.shell line) := by
  refine ⟨h.bare, h.trimmed, h.joins.isJoined, h.placed, ⟨none, h.stays⟩, fun t => ?_⟩
  obtain ⟨head, words, haction⟩ := exists_action_ofLine line
  rw [h.trimmed] at haction
  rw [Represents, Item.promoted, h.stays]
  exact ⟨head, words, haction⟩

theorem ofStatements_singleton (s : Shell.Statement) :
    Item.ofStatements s.text [s] = Item.ofStatement s := by
  unfold Item.ofStatements Item.ofStatement Shell.Statement.head Shell.Statement.args
  rw [List.map_singleton, List.intercalate_singleton]
  cases s.wordTexts <;> rfl

/-- A command line that is one statement with its text is trimmed and becomes one item. -/
theorem placed_of_statement {s : Shell.Statement} (h : Shell.tokenize line = .complete [s])
    (htext : s.text = line) :
    Text.trimmed line = line ∧ ∀ parallel,
      Placement.ofCommand line [s] parallel = .items [.ofLine line] := by
  have htrimmed : Text.trimmed line = line := by
    rw [← htext]
    exact Shell.trimmed_of_tokenize h s List.mem_cons_self
  have hitem : Item.ofLine line = Item.ofStatement s := by
    rw [ofLine_of_tokenize htrimmed h, ← htext, ofStatements_singleton]
  refine ⟨htrimmed, fun parallel => ?_⟩
  rw [hitem]
  simp [Placement.ofCommand]

/-! ## Calls -/

section Call

variable {name : String} {args : Arguments}

theorem not_isBracketText_callLine (hname : IsProcedureName name) (args : Arguments) :
    ¬IsBracketText (callLine name args) := by
  rintro ⟨b, h⟩
  obtain ⟨c, cs, hcs⟩ := List.exists_cons_of_ne_nil hname.ne_nil
  have hc : Shell.isPlain c = true := hname.isPlain c (by rw [hcs]; exact List.mem_cons_self)
  have hhead : (callLine name args).toList.head? = some c := by
    unfold callLine
    rw [String.toList_append, hcs]
    rfl
  have hbracket : c = '\x7b' ∨ c = '\x7d' := by
    rcases h with h | h <;> rw [h] at hhead <;> cases b <;>
      simp [Bracket.opening, Bracket.closing] at hhead <;> simp [← hhead]
  rcases hbracket with rfl | rfl <;> revert hc <;> decide

theorem joinsToItself_callLine (hname : IsProcedureName name) (hargs : args.WellNamed) :
    JoinsToItself (callLine name args) := by
  have hfeed := lineFeed_not_mem_callLine hname hargs
  have htrim := trim_callLine hname args
  have hne : (callLine name args).toList ≠ [] := by
    unfold callLine
    rw [String.toList_append]
    exact List.append_ne_nil_of_left_ne_nil hname.ne_nil _
  have hlast : ∀ c, (callLine name args).toList.getLast? = some c → isBlank c = false := by
    intro c hc
    rw [← htrim] at hc
    exact Text.getLast?_trim_not_blank hc
  have hlines : Text.lines (callLine name args) = [callLine name args] := by
    rw [Text.lines_eq_physicalLines hne hlast]
    apply Text.physicalLines_of_isRow
    refine ⟨hfeed, fun hreturn => ?_⟩
    exact absurd (hlast _ hreturn) (by decide)
  refine ⟨[], ?_, by simp⟩
  rw [hlines]
  exact congrArg (fun text => [text]) (trimmed_callLine hname args)

/-- **Calls.** The line of a call is read as this call. -/
theorem readsAs_call (hname : IsProcedureName name) (hargs : args.WellNamed)
    (hknown : known name = true) : ReadsAs known (callLine name args) (.call name args) := by
  have hpromote := promote_callLine hname hargs hknown
  have hstatement := tokenize_callLine hname hargs
  refine ⟨not_isBracketText_callLine hname args, trimmed_callLine hname args,
    (joinsToItself_callLine hname hargs).isJoined, ⟨_, hstatement, ?_⟩, ⟨_, hpromote⟩, fun t => ?_⟩
  · exact (placed_of_statement hstatement rfl).2
  · rw [Represents, Item.promoted, hpromote]
    rfl

end Call

end Document

/-! ## Items -/

/-- A shell command that reads back, a call of a known procedure, or a reference. -/
def Item.ReadsBack (known : String → Bool) (x : Item) : Prop :=
  match x.action with
  | .shell line _ _ => Document.ReadsBack known line
  | .call name args => known name = true ∧ args.WellNamed
  | .block _ => True

namespace Pipeline

open Document

variable {p : Pipeline}

theorem isProcedureName_of_contains
    (hnames : ∀ e ∈ p.procedures.entries, e.2.name = e.1 ∧ IsProcedureName e.1) {name : String}
    (h : p.procedures.contains name = true) : IsProcedureName name := by
  obtain ⟨e, he, hname⟩ := List.any_eq_true.1 h
  rw [← of_decide_eq_true hname]
  exact (hnames e he).2

theorem readable_of_readsBack
    (hnames : ∀ e ∈ p.procedures.entries, e.2.name = e.1 ∧ IsProcedureName e.1) {x : Item}
    (h : x.ReadsBack p.procedures.contains) : x.Readable p.procedures.contains := by
  unfold Item.ReadsBack at h
  unfold Item.Readable
  split
  · next line head words haction =>
    rw [haction] at h
    exact h.readsAs
  · next name args haction =>
    rw [haction] at h
    obtain ⟨hknown, hargs⟩ := h
    exact readsAs_call (isProcedureName_of_contains hnames hknown) hargs hknown
  · trivial

end Pipeline

end Runbook
