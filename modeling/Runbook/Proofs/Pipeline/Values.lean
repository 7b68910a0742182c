import Runbook.Proofs.Pipeline.Call
import Runbook.Proofs.Shell.Spelling

/-!
# Values of words and options

The scan cuts a word into segments, and what its text stands for is read from the text once more,
without these. Both agree: each word of a command, and the value of each option, is read as what the
segments stand for, and there is no lapse in it (`decodes_of_tokenize`).
-/

namespace Runbook

open Shell (Segment Statement Word tokenize unquote unquoteExactly)

namespace Shell

variable {w : Word} {xs : List Segment}

/-- The text of the word is read as what its well-formed segments stand for, without a lapse. -/
structure Word.Decodes (w : Word) : Prop where
  wellFormed : ∀ x ∈ w.segments, x.WellFormed
  exactly : unquoteExactly w.text = .ok (String.ofList w.value)
  value : unquote w.text = String.ofList w.value

theorem Word.Decodes.of_wellFormed (h : ∀ x ∈ w.segments, x.WellFormed) : w.Decodes :=
  ⟨h, unquoteExactly_text h, unquote_text h⟩

/-! ## Segments of a command -/

theorem wellFormed_ofBare {cs : List Char} (h : ∀ c ∈ cs, (Segment.bare c).WellFormed) :
    ∀ x ∈ (Word.ofBare cs).segments, x.WellFormed := by
  intro x hx
  obtain ⟨c, hc, rfl⟩ := List.mem_map.1 hx
  exact h c hc

theorem Word.IsOperator.wellFormed_segments (h : w.IsOperator) :
    ∀ x ∈ w.segments, x.WellFormed := by
  rcases h with rfl | rfl | rfl | rfl <;> apply wellFormed_ofBare <;>
    simp [Segment.WellFormed]

theorem Spelling.wellFormed (h : Spelling xs) : ∀ x ∈ xs, x.WellFormed := by
  have hhash : (Segment.bare '#').WellFormed := by simp [Segment.WellFormed]
  have hand : (Segment.bare '&').WellFormed := by simp [Segment.WellFormed]
  have hangle : (Segment.bare '>').WellFormed := by simp [Segment.WellFormed]
  induction h with
  | nil => nofun
  | joins _ hx ih => exact List.forall_mem_cons.2 ⟨hx.1, ih⟩
  | hash _ _ ih => exact List.forall_mem_cons.2 ⟨hhash, ih⟩
  | behindAngle _ _ ih => exact List.forall_mem_cons.2 ⟨hand, ih⟩
  | beforeAngle _ ih =>
    exact List.forall_mem_cons.2 ⟨hangle, List.forall_mem_cons.2 ⟨hand, ih⟩⟩

theorem Word.IsSpelled.decodes (h : w.IsSpelled) : w.Decodes := by
  apply Word.Decodes.of_wellFormed
  rcases h with h | ⟨-, h⟩
  · exact h.wellFormed_segments
  · exact fun x hx => h.wellFormed x (List.mem_reverse.2 hx)

/-- Characters that need no quotes are bare segments wherever they stand first in a word. -/
theorem exists_segments_of_bare {cs rest : List Char} (hcs : ∀ c ∈ cs, (Segment.bare c).WellFormed)
    (h : xs.flatMap Segment.source = cs ++ rest) :
    ∃ after, xs = cs.map .bare ++ after ∧ after.flatMap Segment.source = rest := by
  induction cs generalizing xs with
  | nil => exact ⟨xs, rfl, h⟩
  | cons c cs ih =>
    obtain ⟨⟨hsingle, hdouble, hbackslash⟩, hrest⟩ := List.forall_mem_cons.1 hcs
    cases xs with
    | nil => cases h
    | cons x xs =>
      rw [List.flatMap_cons, List.cons_append] at h
      -- Any other segment begins with a quote or a backslash.
      cases x with
      | bare d =>
        obtain ⟨rfl, htail⟩ := List.cons.inj h
        obtain ⟨after, rfl, hafter⟩ := ih hrest htail
        exact ⟨after, rfl, hafter⟩
      | escaped d => exact absurd (List.cons.inj h).1.symm hbackslash
      | single span => exact absurd (List.cons.inj h).1.symm hsingle
      | double span => exact absurd (List.cons.inj h).1.symm hdouble

end Shell

/-! ## Options -/

theorem IsOptionName.wellFormed {name : String} (h : IsOptionName name) :
    ∀ c ∈ name.toList ++ ['='], (Segment.bare c).WellFormed := by
  have hplain : ∀ c ∈ name.toList ++ ['='], Shell.isPlain c = true := by
    rw [List.forall_mem_append]
    exact ⟨h.isPlain, by simp [Shell.isPlain]⟩
  exact fun c hc => (Segment.joins_bare (Shell.isWordChar_of_isPlain (hplain c hc))).1

/-- The name of an option and its `=` are bare, and the segments behind them make up its value. -/
theorem exists_word_of_splitOption? {w : Word} (h : w.Decodes) {name value : String}
    (hsplit : splitOption? w.text = some (name, value)) :
    ∃ after : Word, w.segments = (name.toList ++ ['=']).map .bare ++ after.segments ∧
      value = after.text ∧ after.Decodes := by
  obtain ⟨hname, htext⟩ := splitOption?_eq_some_iff.1 hsplit
  have hsource : w.segments.flatMap Segment.source = (name.toList ++ ['=']) ++ value.toList := by
    have hlist := congrArg String.toList htext
    rw [Word.text, String.toList_ofList, String.toList_append, String.toList_append] at hlist
    exact hlist
  obtain ⟨after, hsegments, hafter⟩ := Shell.exists_segments_of_bare hname.wellFormed hsource
  refine ⟨⟨after⟩, hsegments, ?_, ?_⟩
  · unfold Word.text Word.source
    rw [hafter, String.ofList_toList]
  · apply Word.Decodes.of_wellFormed
    intro x hx
    apply h.wellFormed
    rw [hsegments]
    exact List.mem_append_right _ hx

/-- **Values.** Each word of a command is read as what its segments stand for, without a lapse; and
so is the value of an option, which is made up of the segments behind the `=`. -/
theorem decodes_of_tokenize {text : String} {statements : List Statement}
    (h : tokenize text = .complete statements) {s : Statement} (hs : s ∈ statements) {w : Word}
    (hw : w ∈ s.words) :
    w.Decodes ∧ ∀ name value, splitOption? w.text = some (name, value) →
      ∃ after : Word, w.segments = (name.toList ++ ['=']).map .bare ++ after.segments ∧
        value = after.text ∧ after.Decodes := by
  have hdecodes := (Shell.isSpelled_of_tokenize h hs hw).decodes
  exact ⟨hdecodes, fun name value hsplit => exists_word_of_splitOption? hdecodes hsplit⟩

/-- A call with an option whose value has every kind of segment. -/
def styledLine : String :=
  "deploy to=a'b c'\"\\t\\x41\\041\"\\;"

theorem decodes_of_tokenize_styledLine :
    ∃ s w, tokenize styledLine = .complete [s] ∧ w ∈ s.words ∧ w.Decodes ∧
      unquote w.text = "to=ab c\tA!;" ∧
      splitOption? w.text = some ("to", "a'b c'\"\\t\\x41\\041\"\\;") ∧
      ∃ after : Word, w.segments = ("to".toList ++ ['=']).map .bare ++ after.segments ∧
        "a'b c'\"\\t\\x41\\041\"\\;" = after.text ∧ after.Decodes ∧
        unquote after.text = "ab c\tA!;" := by
  have htokenize : ∃ s w, tokenize styledLine = .complete [s] ∧ w ∈ s.words ∧
      unquote w.text = "to=ab c\tA!;" ∧
      splitOption? w.text = some ("to", "a'b c'\"\\t\\x41\\041\"\\;") :=
    ⟨_, _, rfl, List.mem_cons_of_mem _ List.mem_cons_self, by decide +kernel, by decide +kernel⟩
  obtain ⟨s, w, hs, hw, hvalue, hsplit⟩ := htokenize
  obtain ⟨hdecodes, hoption⟩ := decodes_of_tokenize hs List.mem_cons_self hw
  obtain ⟨after, hsegments, htext, hafter⟩ := hoption _ _ hsplit
  refine ⟨s, w, hs, hw, hdecodes, hvalue, hsplit, after, hsegments, htext, hafter, ?_⟩
  rw [← htext]
  decide +kernel

end Runbook
