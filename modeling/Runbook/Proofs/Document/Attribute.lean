import Runbook.Pipeline.Outline
import Runbook.Proofs.Document.Header
import Runbook.Proofs.Text.Physical

/-!
# Attributes in a document

An attribute that can be written: a key of name characters, and a trimmed value on one line. Its row
is one line, which is recognised as an attribute line and read back as the attribute.
-/

namespace Runbook.Document

open Runbook.Text (isBlank)

/-- An attribute whose row is read back. -/
structure IsAttribute (a : String × String) : Prop where
  keyNonempty : a.1.toList ≠ []
  key : ∀ c ∈ a.1.toList, isNameChar c = true
  value : Text.trimmed a.2 = a.2
  row : '\n' ∉ a.2.toList

instance (a : String × String) : Decidable (IsAttribute a) :=
  decidable_of_iff
    (a.1.toList ≠ [] ∧ a.1.toList.all isNameChar = true ∧ Text.trimmed a.2 = a.2 ∧
      '\n' ∉ a.2.toList)
    ⟨fun h => ⟨h.1, List.all_eq_true.1 h.2.1, h.2.2.1, h.2.2.2⟩,
      fun h => ⟨h.keyNonempty, List.all_eq_true.2 h.key, h.value, h.row⟩⟩

theorem not_isBlank_of_isNameChar {c : Char} (h : isNameChar c = true) : isBlank c = false :=
  Shell.not_isBlank_of_isPlain (isPlain_of_isNameChar h)

theorem isBlank_space : ∀ c ∈ [' '], isBlank c = true :=
  List.forall_mem_singleton.2 (by decide)

theorem toList_attributeRow (a : String × String) :
    (Pipeline.attributeRow a).toList =
      '#' :: '@' :: ' ' :: (a.1.toList ++ ':' :: ' ' :: a.2.toList) := by
  simp [Pipeline.attributeRow]

/-- What trimming leaves of the row behind `#@`: nothing but the last blank goes, and that only if
the value is empty. -/
theorem trim_attributeRow {a : String × String} (h : IsAttribute a) :
    ∃ value, Text.trim (Pipeline.attributeRow a).toList =
        '#' :: '@' :: ' ' :: (a.1.toList ++ ':' :: value) ∧ Text.trim value = a.2.toList := by
  have hvalue : Text.trim a.2.toList = a.2.toList := by
    rw [← Text.toList_trimmed, h.value]
  have hstart : ∀ cs : List Char, Text.trimStart ('#' :: cs) = '#' :: cs := by
    intro cs
    apply Text.trimStart_eq_self
    rintro c hc
    obtain rfl := Option.some.inj hc
    decide
  rw [toList_attributeRow]
  by_cases hempty : a.2.toList = []
  · refine ⟨[], ?_, by rw [hempty]; rfl⟩
    have hsplit : '#' :: '@' :: ' ' :: (a.1.toList ++ ':' :: ' ' :: a.2.toList) =
        ('#' :: '@' :: ' ' :: (a.1.toList ++ [':'])) ++ [' '] := by
      rw [hempty]
      simp
    unfold Text.trim
    rw [hstart, hsplit, Text.trimEnd_append_of_blank isBlank_space]
    apply Text.trimEnd_eq_self
    intro c hc
    rw [← List.cons_append, ← List.cons_append, ← List.cons_append, List.getLast?_concat] at hc
    obtain rfl := Option.some.inj hc
    decide
  · refine ⟨' ' :: a.2.toList, ?_, ?_⟩
    · unfold Text.trim
      rw [hstart]
      apply Text.trimEnd_eq_self
      intro c hc
      obtain ⟨d, hd⟩ := Option.isSome_iff_exists.1 (List.getLast?_isSome.2 hempty)
      have hsplit : '#' :: '@' :: ' ' :: (a.1.toList ++ ':' :: ' ' :: a.2.toList) =
          ('#' :: '@' :: ' ' :: (a.1.toList ++ [':', ' '])) ++ a.2.toList := by
        simp
      rw [hsplit, List.getLast?_append, hd] at hc
      obtain rfl := Option.some.inj hc
      rw [← hvalue] at hd
      exact Text.getLast?_trim_not_blank hd
    · show Text.trim ([' '] ++ a.2.toList) = _
      rw [Text.trim_append_of_blank isBlank_space, hvalue]

/-- **Attributes.** The row of an attribute is read back as the attribute. -/
theorem attribute?_attributeRow {a : String × String} (h : IsAttribute a) :
    attribute? (Pipeline.attributeRow a) = some a := by
  obtain ⟨value, htrim, hvalue⟩ := trim_attributeRow h
  have hcolon : ':' ∉ ' ' :: a.1.toList := by
    intro hc
    rcases List.mem_cons.1 hc with hc | hc
    · exact absurd hc (by decide)
    · exact absurd (h.key ':' hc) (by decide)
  have htake := Text.takeWhile_ne_append hcolon value
  have hdrop := Text.dropWhile_ne_append hcolon value
  rw [List.cons_append] at htake hdrop
  have hkey : Text.trim (' ' :: a.1.toList) = a.1.toList := by
    show Text.trim ([' '] ++ a.1.toList) = _
    rw [Text.trim_append_of_blank isBlank_space]
    apply Text.trim_eq_self
    · intro c hc
      exact not_isBlank_of_isNameChar (h.key c (List.mem_of_mem_head? hc))
    · intro c hc
      exact not_isBlank_of_isNameChar (h.key c (List.mem_of_getLast? hc))
  unfold attribute?
  rw [htrim]
  have hafter : after? ['#', '@'] ('#' :: '@' :: ' ' :: (a.1.toList ++ ':' :: value)) =
      some (' ' :: (a.1.toList ++ ':' :: value)) := rfl
  simp only [hafter, Option.bind_eq_bind, Option.bind_some, htake, hdrop, hkey, hvalue,
    String.ofList_toList]
  rw [if_pos ⟨h.keyNonempty, List.all_eq_true.2 h.key⟩]

theorem classify_attribute {line : String} {cs : List Char}
    (h : Text.trim line.toList = '#' :: '@' :: cs) : classify line = .attribute := by
  have hinclude : includeTarget? line = none := by
    unfold includeTarget?
    rw [h]
    rfl
  have hheader : header? line = none := by
    unfold header?
    rw [h]
    rfl
  have hleft : leftBracket? line = none := by
    unfold leftBracket?
    rw [h]
    rfl
  have hright : rightBracket? line = none := by
    unfold rightBracket?
    rw [h]
    rfl
  have hempty : isEmptyLine line = false := by
    unfold isEmptyLine
    rw [h]
    rfl
  have hattribute : isAttributeLine line = true := by
    have hprefix := Text.trimEnd_isPrefix_self (Text.trimStart line.toList)
    obtain ⟨rest, hrest⟩ := hprefix
    unfold isAttributeLine
    rw [← hrest, show Text.trimEnd (Text.trimStart line.toList) = '#' :: '@' :: cs from h]
    rfl
  unfold classify
  rw [hinclude, hheader, hleft, hright]
  simp only [hempty, hattribute, Bool.false_eq_true, if_false, if_true]

theorem classify_attributeRow {a : String × String} (h : IsAttribute a) :
    classify (Pipeline.attributeRow a) = .attribute := by
  obtain ⟨value, htrim, -⟩ := trim_attributeRow h
  exact classify_attribute htrim

theorem physicalLines_attributeRow {a : String × String} (h : IsAttribute a) :
    Text.physicalLines (Pipeline.attributeRow a) = [Pipeline.attributeRow a] := by
  apply Text.physicalLines_of_isRow
  rw [toList_attributeRow]
  constructor
  · intro hmem
    simp only [List.mem_cons, List.mem_append] at hmem
    rcases hmem with hmem | hmem | hmem | hmem | hmem | hmem | hmem
    · exact absurd hmem (by decide)
    · exact absurd hmem (by decide)
    · exact absurd hmem (by decide)
    · exact absurd (h.key '\n' hmem) (by decide)
    · exact absurd hmem (by decide)
    · exact absurd hmem (by decide)
    · exact h.row hmem
  · intro hlast
    have hsplit : '#' :: '@' :: ' ' :: (a.1.toList ++ ':' :: ' ' :: a.2.toList) =
        ('#' :: '@' :: ' ' :: (a.1.toList ++ [':', ' '])) ++ a.2.toList := by
      simp
    rw [hsplit, List.getLast?_append] at hlast
    cases hvalue : a.2.toList.getLast? with
    | none =>
      have hblank : ('#' :: '@' :: ' ' :: (a.1.toList ++ [':', ' '])).getLast? = some ' ' := by
        rw [show '#' :: '@' :: ' ' :: (a.1.toList ++ [':', ' ']) =
          ('#' :: '@' :: ' ' :: (a.1.toList ++ [':'])) ++ [' '] by simp]
        exact List.getLast?_concat
      rw [hvalue, hblank] at hlast
      exact absurd hlast (by decide)
    | some d =>
      rw [hvalue] at hlast
      obtain rfl := Option.some.inj hlast
      rw [← h.value, Text.toList_trimmed] at hvalue
      exact absurd (Text.getLast?_trim_not_blank hvalue) (by decide)

theorem isAttribute_of_attribute? {line : String} {a : String × String}
    (h : attribute? line = some a) (hline : '\n' ∉ line.toList) : IsAttribute a := by
  unfold attribute? at h
  simp only [Option.bind_eq_bind, Option.bind_eq_some_iff] at h
  obtain ⟨rest, hrest, h⟩ := h
  split at h
  · next c value hvalue =>
    split at h
    · next hkey =>
      obtain rfl := Option.some.inj h
      have hmem : ∀ c ∈ value, c ∈ line.toList := by
        intro c hc
        have hmem : c ∈ rest := by
          apply (List.dropWhile_suffix (· ≠ ':')).subset
          rw [hvalue]
          exact List.mem_cons_of_mem _ hc
        apply Text.mem_of_mem_trim
        rw [after?_eq_some hrest]
        exact List.mem_append_right _ hmem
      refine ⟨?_, ?_, ?_, ?_⟩
      · simpa using hkey.1
      · simpa using hkey.2
      · unfold Text.trimmed
        rw [String.toList_ofList, Text.trim_trim]
      · intro hfeed
        rw [String.toList_ofList] at hfeed
        exact hline (hmem _ (Text.mem_of_mem_trim hfeed))
    · cases h
  · cases h
end Runbook.Document
