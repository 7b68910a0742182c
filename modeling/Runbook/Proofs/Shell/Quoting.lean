import Runbook.Proofs.Shell.Unquoting

/-!
# Quoted values

A value written by `posix` is one word of well-formed segments that stands for the value
(`joins_ofValue`, `value_ofValue`), in whichever of the three styles it is written; so `unquote`
gives the value back (`unquote_posix`). The text of such a word holds no line feed and does not
end in a blank, which is what lets it stand in a line of a document.
-/

namespace Runbook.Shell

open Runbook.Text (isBlank isControl)

/-! ## Hexadecimal digits -/

theorem digit?_hexDigit : ∀ n < 16, Radix.hexadecimal.digit? (hexDigit n) = some n := by
  decide

theorem hexDigit_ne_lineFeed : ∀ n < 16, hexDigit n ≠ '\n' := by
  decide

/-- A character that two hexadecimal digits can give. -/
theorem wellFormed_hex {c : Char} (h : c.toNat < 256) : (Piece.hex c).WellFormed := by
  constructor
  · rw [digit?_hexDigit _ (by omega)]
    rfl
  · rw [digit?_hexDigit _ (by omega)]
    rfl

theorem value_hex {c : Char} (h : c.toNat < 256) : (Piece.hex c).value = c := by
  show Char.ofNat (Radix.hexadecimal.digit _ * 16 + Radix.hexadecimal.digit _) = c
  unfold Radix.digit
  rw [digit?_hexDigit _ (by omega), digit?_hexDigit _ (by omega)]
  show Char.ofNat (c.toNat / 16 * 16 + c.toNat % 16) = c
  rw [show c.toNat / 16 * 16 + c.toNat % 16 = c.toNat by omega]
  exact Char.ofNat_toNat c

theorem toNat_lt_of_isControl {c : Char} (h : isControl c = true) : c.toNat < 256 := by
  simp only [isControl, Bool.or_eq_true, Bool.and_eq_true, decide_eq_true_eq] at h
  omega

/-! ## Pieces -/

/-- What `Piece.ofChar` can give: a named control character, one by number, or a plain one. -/
theorem ofChar_cases (c : Char) :
    (∃ k, Piece.ofChar c = .control k ∧ k.char = c) ∨
      (Piece.ofChar c = .hex c ∧ c.toNat < 256) ∨
      (Piece.ofChar c = .char c ∧ c ≠ '\x22' ∧ c ≠ '\\' ∧ isControl c = false) := by
  unfold Piece.ofChar
  split_ifs with h₁ h₂ h₃ h₄ h₅
  · exact .inl ⟨.tab, rfl, h₁.symm⟩
  · exact .inl ⟨.carriageReturn, rfl, h₂.symm⟩
  · exact .inl ⟨.lineFeed, rfl, h₃.symm⟩
  · exact .inl ⟨.backspace, rfl, h₄.symm⟩
  · refine .inr (.inl ⟨rfl, ?_⟩)
    rcases h₅ with rfl | rfl | rfl | rfl | h₅
    · decide
    · decide
    · decide
    · decide
    · exact toNat_lt_of_isControl h₅
  · simp only [not_or] at h₅
    exact .inr (.inr ⟨rfl, h₅.1, h₅.2.1, by simpa using h₅.2.2.2.2⟩)

theorem wellFormed_ofChar (c : Char) : (Piece.ofChar c).WellFormed := by
  rcases ofChar_cases c with ⟨k, hk, -⟩ | ⟨h, hc⟩ | ⟨h, h₁, h₂, -⟩
  · rw [hk]
    trivial
  · rw [h]
    exact wellFormed_hex hc
  · rw [h]
    exact ⟨h₁, h₂⟩

theorem value_ofChar (c : Char) : (Piece.ofChar c).value = c := by
  rcases ofChar_cases c with ⟨k, hk, hc⟩ | ⟨h, hc⟩ | ⟨h, -⟩
  · rw [hk]
    exact hc
  · rw [h]
    exact value_hex hc
  · rw [h]
    rfl

theorem lineFeed_not_mem_ofChar (c : Char) : '\n' ∉ (Piece.ofChar c).source := by
  rcases ofChar_cases c with ⟨k, hk, -⟩ | ⟨h, hc⟩ | ⟨h, -, -, hc⟩
  · rw [hk]
    cases k <;> decide
  · rw [h]
    have hhigh := hexDigit_ne_lineFeed (c.toNat / 16) (by omega)
    have hlow := hexDigit_ne_lineFeed (c.toNat % 16) (by omega)
    show '\n' ∉ ['\\', 'x', hexDigit (c.toNat / 16), hexDigit (c.toNat % 16)]
    simp [hhigh.symm, hlow.symm]
  · rw [h]
    show '\n' ∉ [c]
    rw [List.mem_singleton]
    rintro rfl
    revert hc
    decide

/-! ## Single quotes -/

/-- The segments of a text in single quotes: spans, and the quotes between them. -/
theorem singleSpans_segments {P : Segment → Prop} (hquote : P (.escaped '\x27'))
    {Q : Char → Prop} (hspan : ∀ span : List Char, '\x27' ∉ span → (∀ c ∈ span, Q c) →
      P (.single span)) (rev cs : List Char) (hrev : '\x27' ∉ rev) (hQrev : ∀ c ∈ rev, Q c)
    (hQ : ∀ c ∈ cs, Q c) : ∀ x ∈ singleSpans rev cs, P x := by
  induction cs generalizing rev with
  | nil =>
    intro x hx
    rw [singleSpans, List.mem_singleton] at hx
    rw [hx]
    exact hspan _ (by simpa using hrev) (by simpa using hQrev)
  | cons c cs ih =>
    obtain ⟨hc, hcs⟩ := List.forall_mem_cons.1 hQ
    unfold singleSpans
    split_ifs with h
    · intro x hx
      rcases List.mem_cons.1 hx with rfl | hx
      · exact hspan _ (by simpa using hrev) (by simpa using hQrev)
      rcases List.mem_cons.1 hx with rfl | hx
      · rw [h]
        exact hquote
      · exact ih [] List.not_mem_nil (by simp) hcs x hx
    · refine ih (c :: rev) ?_ ?_ hcs
      · rw [List.mem_cons, not_or]
        exact ⟨Ne.symm h, hrev⟩
      · exact List.forall_mem_cons.2 ⟨hc, hQrev⟩

theorem value_singleSpans (rev cs : List Char) :
    (singleSpans rev cs).flatMap Segment.value = rev.reverse ++ cs := by
  induction cs generalizing rev with
  | nil => simp [singleSpans, Segment.value]
  | cons c cs ih =>
    unfold singleSpans
    split_ifs with h
    · rw [List.flatMap_cons, List.flatMap_cons, ih]
      simp [Segment.value]
    · rw [ih]
      simp

theorem singleSpans_ne_nil (rev cs : List Char) : singleSpans rev cs ≠ [] := by
  induction cs generalizing rev with
  | nil => exact List.cons_ne_nil _ _
  | cons c cs ih =>
    unfold singleSpans
    split_ifs
    · exact List.cons_ne_nil _ _
    · exact ih (c :: rev)

/-! ## Words of values -/

theorem isWordChar_of_isPlain {c : Char} (h : isPlain c = true) : isWordChar c = true := by
  unfold isWordChar
  simp only [Bool.not_eq_true', List.contains_eq_mem, List.mem_cons, List.not_mem_nil, or_false,
    decide_eq_false_iff_not, not_or]
  refine ⟨?_, ?_, ?_, ?_, ?_, ?_, ?_, ?_, ?_, ?_, ?_⟩ <;>
    (rintro rfl; revert h; decide)

/-- Every segment of a written value has a property that holds of plain characters, of escaped
quotes, of spans without quotes or control characters, and of pieces of characters. -/
theorem ofValue_segments {P : Segment → Prop} (hbare : ∀ c, isPlain c = true → P (.bare c))
    (hquote : P (.escaped '\x27'))
    (hsingle : ∀ span : List Char, '\x27' ∉ span → (∀ c ∈ span, isControl c = false) →
      P (.single span))
    (hdouble : ∀ cs : List Char, P (.double (cs.map Piece.ofChar))) (cs : List Char) :
    ∀ x ∈ (Word.ofValue cs).segments, P x := by
  unfold Word.ofValue
  split_ifs with h₁ h₂ h₃
  · intro x hx
    rw [List.mem_singleton] at hx
    rw [hx]
    exact hsingle [] List.not_mem_nil (by simp)
  · intro x hx
    obtain ⟨c, hc, rfl⟩ := List.mem_map.1 hx
    exact hbare c (List.all_eq_true.1 h₂ c hc)
  · intro x hx
    rw [List.mem_singleton] at hx
    rw [hx]
    exact hdouble cs
  · refine singleSpans_segments hquote hsingle [] cs List.not_mem_nil (by simp) ?_
    simpa using h₃

theorem joins_ofValue (cs : List Char) : ∀ x ∈ (Word.ofValue cs).segments, x.Joins := by
  refine ofValue_segments ?_ ?_ ?_ ?_ cs
  · intro c hc
    exact Segment.joins_bare (isWordChar_of_isPlain hc)
  · exact ⟨trivial, fun d hd => by simp at hd⟩
  · intro span hspan _
    exact ⟨hspan, fun d hd => by simp at hd⟩
  · intro cs
    refine ⟨fun p hp => ?_, fun d hd => by simp at hd⟩
    obtain ⟨c, -, rfl⟩ := List.mem_map.1 hp
    exact wellFormed_ofChar c

theorem value_ofValue (cs : List Char) : (Word.ofValue cs).value = cs := by
  unfold Word.ofValue
  split_ifs with h₁ h₂ h₃
  · rw [List.isEmpty_iff.1 h₁]
    rfl
  · exact Word.value_ofBare cs
  · show ([Segment.double (cs.map Piece.ofChar)]).flatMap Segment.value = cs
    simp only [List.flatMap_cons, List.flatMap_nil, Segment.value, List.append_nil, List.map_map]
    rw [show Piece.value ∘ Piece.ofChar = id from funext value_ofChar, List.map_id]
  · exact value_singleSpans [] cs

/-- **Quoting.** What `posix` writes is read back as the value. -/
theorem unquote_posix (value : String) : unquote (posix value) = value := by
  unfold posix
  rw [unquote_text fun x hx => (joins_ofValue value.toList x hx).1, value_ofValue,
    String.ofList_toList]

/-! ## Written values in a line -/

theorem lineFeed_not_mem_ofValue (cs : List Char) : '\n' ∉ (Word.ofValue cs).source := by
  have hseg : ∀ x ∈ (Word.ofValue cs).segments, '\n' ∉ x.source := by
    refine ofValue_segments ?_ ?_ ?_ ?_ cs
    · intro c hc
      show '\n' ∉ [c]
      rw [List.mem_singleton]
      rintro rfl
      revert hc
      decide
    · decide
    · intro span _ hspan
      show '\n' ∉ '\x27' :: span ++ ['\x27']
      simp only [List.cons_append, List.mem_cons, List.mem_append, List.not_mem_nil, or_false,
        not_or]
      refine ⟨by decide, fun hmem => ?_, by decide⟩
      have := hspan _ hmem
      revert this
      decide
    · intro cs
      show '\n' ∉ '\x22' :: (cs.map Piece.ofChar).flatMap Piece.source ++ ['\x22']
      simp only [List.cons_append, List.mem_cons, List.mem_append, List.not_mem_nil, or_false,
        not_or, List.mem_flatMap, List.mem_map, not_exists, not_and]
      refine ⟨by decide, ?_, by decide⟩
      rintro p ⟨c, -, rfl⟩
      exact lineFeed_not_mem_ofChar c
  rw [Word.source, List.mem_flatMap]
  rintro ⟨x, hx, hmem⟩
  exact hseg x hx hmem

theorem not_isBlank_of_isPlain {c : Char} (h : isPlain c = true) : isBlank c = false := by
  have hplain : ∀ n < 128, isPlain (Char.ofNat n) = true → isBlank (Char.ofNat n) = false := by
    decide +kernel
  have hlt : c.toNat < 128 := by
    unfold isPlain Char.isAlphanum Char.isAlpha Char.isDigit Char.isUpper Char.isLower at h
    simp only [Bool.or_eq_true, Bool.and_eq_true, decide_eq_true_eq, List.contains_eq_mem,
      List.mem_cons, List.not_mem_nil, or_false, UInt32.le_iff_toNat_le] at h
    rcases h with ((⟨_, h⟩ | ⟨_, h⟩) | ⟨_, h⟩) | h
    · exact Nat.lt_of_le_of_lt h (by decide)
    · exact Nat.lt_of_le_of_lt h (by decide)
    · exact Nat.lt_of_le_of_lt h (by decide)
    · rcases h with rfl | rfl | rfl | rfl | rfl | rfl | rfl | rfl | rfl | rfl <;> decide
  rw [← Char.ofNat_toNat c] at h ⊢
  exact hplain c.toNat hlt h

/-- A written value ends in a character that is not blank. -/
theorem getLast?_ofValue (cs : List Char) :
    ∃ c, (Word.ofValue cs).source.getLast? = some c ∧ isBlank c = false := by
  have hseg : ∀ x ∈ (Word.ofValue cs).segments,
      ∃ c, x.source.getLast? = some c ∧ isBlank c = false := by
    refine ofValue_segments ?_ ?_ ?_ ?_ cs
    · intro c hc
      exact ⟨c, rfl, not_isBlank_of_isPlain hc⟩
    · exact ⟨'\x27', rfl, by decide⟩
    · intro span _ _
      exact ⟨'\x27', List.getLast?_concat, by decide⟩
    · intro cs
      exact ⟨'\x22', List.getLast?_concat, by decide⟩
  have hne : (Word.ofValue cs).segments ≠ [] := by
    unfold Word.ofValue
    split_ifs with h₁ h₂ h₃
    · exact List.cons_ne_nil _ _
    · intro h
      exact h₁ (by simpa [Word.ofBare] using h)
    · exact List.cons_ne_nil _ _
    · exact singleSpans_ne_nil [] cs
  obtain ⟨c, hc, hblank⟩ := hseg _ (List.getLast_mem hne)
  refine ⟨c, ?_, hblank⟩
  rw [Word.source, ← List.dropLast_concat_getLast hne, List.flatMap_append, List.getLast?_append]
  simp [hc]

end Runbook.Shell
