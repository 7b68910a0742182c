import Runbook.Document.Line
import Runbook.Proofs.Shell.Quoting
import Runbook.Proofs.Text.Trim

/-!
# Procedure names and headers

A procedure name is what a header can declare: an identifier that takes up the whole text. A header
is such a name, `()` and perhaps a bracket, with blanks between them (`header?_eq_some_iff`). So the
row of a header with its bracket is recognised as that header (`classify_headerRow`), and a header
without its bracket still is one (`classify_of_bracket_cut`).
-/

namespace Runbook.Document

open Runbook.Text (isBlank)

/-! ## Names -/

/-- A name that a header can declare. -/
def IsProcedureName (name : String) : Prop :=
  identifier? isNameChar name.toList = some (name.toList, [])

instance (name : String) : Decidable (IsProcedureName name) :=
  inferInstanceAs (Decidable (identifier? isNameChar name.toList = some (name.toList, [])))

theorem isPlain_of_isNameChar {c : Char} (h : isNameChar c = true) : Shell.isPlain c = true := by
  simp only [isNameChar, Bool.or_eq_true, List.contains_eq_mem, List.mem_cons, List.not_mem_nil,
    or_false, decide_eq_true_eq] at h
  unfold Shell.isPlain
  rcases h with h | rfl | rfl | rfl
  · rw [h]
    rfl
  · decide
  · decide
  · decide

theorem isNameChar_of_isAlpha {c : Char} (h : c.isAlpha = true) : isNameChar c = true := by
  simp [isNameChar, Char.isAlphanum, h]

theorem isNameChar_of_isBlank {c : Char} (h : isBlank c = true) : isNameChar c = false := by
  rw [← Bool.not_eq_true]
  intro hname
  cases h.symm.trans (Shell.not_isBlank_of_isPlain (isPlain_of_isNameChar hname))

theorem identifier?_self {isTail : Char → Bool} {cs : List Char}
    (h : identifier? isTail cs = some (cs, [])) :
    ∃ c tail, cs = c :: tail ∧ (c.isAlpha = true ∨ c = '_') ∧ ∀ d ∈ tail, isTail d = true := by
  cases cs with
  | nil => simp [identifier?] at h
  | cons c tail =>
    rw [identifier?] at h
    split at h
    · next hc =>
      simp only [Option.some.injEq, Prod.mk.injEq, List.cons.injEq, true_and] at h
      refine ⟨c, tail, rfl, hc, ?_⟩
      rw [← h.1]
      exact List.all_eq_true.1 List.all_takeWhile
    · simp at h

theorem identifier?_eq_some {isTail : Char → Bool} {cs name rest : List Char}
    (h : identifier? isTail cs = some (name, rest)) : cs = name ++ rest := by
  cases cs with
  | nil => cases h
  | cons c cs =>
    rw [identifier?] at h
    split at h
    · obtain ⟨rfl, rfl⟩ := Prod.mk.inj (Option.some.inj h)
      rw [List.cons_append, List.takeWhile_append_dropWhile]
    · cases h

theorem identifier?_cons_append {isTail : Char → Bool} {c : Char} {tail rest : List Char}
    (hc : c.isAlpha = true ∨ c = '_') (htail : ∀ d ∈ tail, isTail d = true)
    (hrest : ∀ d, rest.head? = some d → isTail d = false) :
    identifier? isTail (c :: (tail ++ rest)) = some (c :: tail, rest) := by
  have htake : rest.takeWhile isTail = [] := by
    cases rest with
    | nil => rfl
    | cons d rest => rw [List.takeWhile_cons_of_neg (by simp [hrest d rfl])]
  have hdrop : rest.dropWhile isTail = rest := by
    cases rest with
    | nil => rfl
    | cons d rest => rw [List.dropWhile_cons_of_neg (by simp [hrest d rfl])]
  rw [identifier?, if_pos hc, List.takeWhile_append_of_pos htail,
    List.dropWhile_append_of_pos htail, htake, hdrop, List.append_nil]

theorem identifier?_append {isTail : Char → Bool} {name rest : List Char}
    (h : identifier? isTail name = some (name, [])) (hrest : ∀ c, rest.head? = some c →
      isTail c = false) : identifier? isTail (name ++ rest) = some (name, rest) := by
  obtain ⟨c, tail, rfl, hc, htail⟩ := identifier?_self h
  exact identifier?_cons_append hc htail hrest

theorem identifier?_of_identifier? {isTail : Char → Bool} {cs name rest : List Char}
    (h : identifier? isTail cs = some (name, rest)) :
    identifier? isTail name = some (name, []) := by
  cases cs with
  | nil => cases h
  | cons c cs =>
    rw [identifier?] at h
    split at h
    · next hc =>
      obtain ⟨rfl, -⟩ := Prod.mk.inj (Option.some.inj h)
      have htake : ∀ d ∈ cs.takeWhile isTail, isTail d = true :=
        List.all_eq_true.1 List.all_takeWhile
      have hdrop : (cs.takeWhile isTail ++ []).dropWhile isTail = [] :=
        List.dropWhile_append_of_pos htake
      rw [List.append_nil] at hdrop
      have hsame := List.takeWhile_append_dropWhile (p := isTail) (l := cs.takeWhile isTail)
      rw [hdrop, List.append_nil] at hsame
      rw [identifier?, if_pos hc, hsame, hdrop]
    · cases h

namespace IsProcedureName

variable {name : String}

theorem ne_nil (h : IsProcedureName name) : name.toList ≠ [] := by
  obtain ⟨c, tail, hname, -⟩ := identifier?_self h
  rw [hname]
  exact List.cons_ne_nil c tail

theorem isNameChar (h : IsProcedureName name) : ∀ c ∈ name.toList, isNameChar c = true := by
  obtain ⟨c, tail, hname, hc, htail⟩ := identifier?_self h
  rw [hname]
  refine List.forall_mem_cons.2 ⟨?_, htail⟩
  rcases hc with hc | rfl
  · exact isNameChar_of_isAlpha hc
  · decide

theorem isPlain (h : IsProcedureName name) : ∀ c ∈ name.toList, Shell.isPlain c = true :=
  fun c hc => isPlain_of_isNameChar (h.isNameChar c hc)

theorem not_isBlank (h : IsProcedureName name) : ∀ c ∈ name.toList, isBlank c = false :=
  fun c hc => Shell.not_isBlank_of_isPlain (h.isPlain c hc)

end IsProcedureName

/-! ## The text of a header -/

@[simp] theorem openingOf?_opening (b : Bracket) : openingOf? b.opening.toList = some b := by
  cases b <;> decide

theorem openingOf?_eq_some {cs : List Char} {b : Bracket} (h : openingOf? cs = some b) :
    cs = b.opening.toList := by
  unfold openingOf? at h
  split_ifs at h with hs hp
  · obtain rfl := Option.some.inj h
    exact hs
  · obtain rfl := Option.some.inj h
    exact hp

theorem after?_append (lead cs : List Char) : after? lead (lead ++ cs) = some cs := by
  induction lead with
  | nil => rfl
  | cons l lead ih => simp [after?, ih]

theorem after?_eq_some {lead cs rest : List Char} (h : after? lead cs = some rest) :
    cs = lead ++ rest := by
  induction lead generalizing cs with
  | nil =>
    obtain rfl := Option.some.inj h
    rfl
  | cons l lead ih =>
    cases cs with
    | nil => simp [after?] at h
    | cons c cs =>
      unfold after? at h
      split at h
      · next hl => rw [hl, ih h, List.cons_append]
      · simp at h

/-- The bracket behind a header, if there is one. -/
def bracketText : Option Bracket → List Char
  | none => []
  | some b => b.opening.toList

/-- The text is a header with this name and bracket, with blanks between its parts and around it. -/
def IsHeaderText (name : String) (b : Option Bracket) (cs : List Char) : Prop :=
  ∃ s₀ s₁ s₂ s₃ s₄ : List Char, (∀ c ∈ s₀ ++ s₁ ++ s₂ ++ s₃ ++ s₄, isBlank c = true) ∧
    cs = s₀ ++ (name.toList ++ (s₁ ++ '(' :: (s₂ ++ ')' :: (s₃ ++ bracketText b ++ s₄))))

section HeaderText

variable {line name : String} {b : Option Bracket}

theorem isHeaderText_of_header? (h : header? line = some (name, b)) :
    IsProcedureName name ∧ IsHeaderText name b line.toList := by
  unfold header? at h
  simp only [Option.bind_eq_bind, Option.bind_eq_some_iff] at h
  obtain ⟨⟨cs, r₁⟩, hid, r₂, hopen, r₃, hclose, h⟩ := h
  have hend : cs = name.toList ∧ Text.trim r₃ = bracketText b := by
    split at h
    · next hempty =>
      obtain ⟨rfl, rfl⟩ := Prod.mk.inj (Option.some.inj h)
      exact ⟨String.toList_ofList.symm, List.isEmpty_iff.1 hempty⟩
    · obtain ⟨b', hb', h⟩ := Option.bind_eq_some_iff.1 h
      obtain ⟨rfl, rfl⟩ := Prod.mk.inj (Option.some.inj h)
      exact ⟨String.toList_ofList.symm, openingOf?_eq_some hb'⟩
  obtain ⟨rfl, hbracket⟩ := hend
  refine ⟨identifier?_of_identifier? hid, ?_⟩
  obtain ⟨s₀, s₀', hs₀, hs₀', hline⟩ := Text.exists_trim line.toList
  obtain ⟨s₁, hs₁, hr₁⟩ := Text.exists_trimStart r₁
  obtain ⟨s₂, hs₂, hr₂⟩ := Text.exists_trimStart r₂
  obtain ⟨s₃, s₃', hs₃, hs₃', hr₃⟩ := Text.exists_trim r₃
  rw [identifier?_eq_some hid, hr₁, after?_eq_some hopen, hr₂, after?_eq_some hclose, hr₃, hbracket]
    at hline
  refine ⟨s₀, s₁, s₂, s₃, s₃' ++ s₀', ?_, by simpa using hline⟩
  simp only [List.forall_mem_append]
  exact ⟨⟨⟨⟨hs₀, hs₁⟩, hs₂⟩, hs₃⟩, hs₃', hs₀'⟩

theorem trim_of_name {bs cs : List Char} (hname : IsProcedureName name)
    (hbs : ∀ c ∈ bs, isBlank c = true) (ds rest : List Char)
    (hcs : cs = bs ++ (name.toList ++ (ds ++ ')' :: rest))) :
    Text.trim cs = name.toList ++ (ds ++ ')' :: Text.trimEnd rest) := by
  have hfirst : ∀ c, (name.toList ++ (ds ++ ')' :: rest)).head? = some c → isBlank c = false := by
    intro c hc
    rw [List.head?_append, Option.or_of_isSome (List.isSome_head?.2 hname.ne_nil)] at hc
    exact hname.not_isBlank c (List.mem_of_mem_head? hc)
  have hlast := Text.trimEnd_append_cons (c := ')') (by decide) (name.toList ++ ds) rest
  unfold Text.trim
  rw [hcs, Text.trimStart_append_of_blank hbs, Text.trimStart_eq_self hfirst]
  simpa using hlast

/-- Where the brackets of a header follow, with blanks before them, its name ends. -/
theorem not_isNameChar_of_head? {bs rest : List Char} (hbs : ∀ c ∈ bs, isBlank c = true) :
    ∀ c, (bs ++ '(' :: rest).head? = some c → isNameChar c = false := by
  intro c hc
  cases bs with
  | nil =>
    obtain rfl := Option.some.inj hc
    decide
  | cons d bs =>
    obtain rfl := Option.some.inj hc
    exact isNameChar_of_isBlank (hbs d List.mem_cons_self)

theorem after?_trimStart {bs : List Char} {c : Char} (hc : isBlank c = false)
    (hbs : ∀ d ∈ bs, isBlank d = true) (cs : List Char) :
    after? [c] (Text.trimStart (bs ++ c :: cs)) = some cs := by
  rw [Text.trimStart_append_of_blank hbs, Text.trimStart_eq_self (by rintro d ⟨⟩; exact hc)]
  simp [after?]

theorem header?_of_isHeaderText (hname : IsProcedureName name)
    (h : IsHeaderText name b line.toList) : header? line = some (name, b) := by
  obtain ⟨s₀, s₁, s₂, s₃, s₄, hblanks, hline⟩ := h
  simp only [List.forall_mem_append] at hblanks
  obtain ⟨⟨⟨⟨hs₀, hs₁⟩, hs₂⟩, hs₃⟩, hs₄⟩ := hblanks
  have htrim := trim_of_name hname hs₀ (s₁ ++ '(' :: s₂) (s₃ ++ bracketText b ++ s₄)
    (by simpa using hline)
  rw [List.append_assoc, List.cons_append] at htrim
  have hid : identifier? isNameChar (Text.trim line.toList) = some (name.toList,
      s₁ ++ '(' :: (s₂ ++ ')' :: Text.trimEnd (s₃ ++ bracketText b ++ s₄))) := by
    rw [htrim]
    exact identifier?_append hname (not_isNameChar_of_head? hs₁)
  have hbracket : Text.trim (Text.trimEnd (s₃ ++ bracketText b ++ s₄)) = bracketText b := by
    rw [Text.trim_trimEnd, Text.trim_append_blank hs₄, Text.trim_append_of_blank hs₃]
    cases b with
    | none => rfl
    | some b => cases b <;> decide
  unfold header?
  rw [hid]
  show (after? _ _).bind _ = _
  rw [after?_trimStart (by decide) hs₁]
  show (after? _ _).bind _ = _
  rw [after?_trimStart (by decide) hs₂]
  simp only [hbracket, Option.bind_some, String.ofList_toList]
  cases b with
  | none => rfl
  | some b => cases b <;> rfl

/-- **The form of a header.** What is recognised as a header is a name, `()` and perhaps a bracket,
with any blanks between them. -/
theorem header?_eq_some_iff :
    header? line = some (name, b) ↔ IsProcedureName name ∧ IsHeaderText name b line.toList :=
  ⟨isHeaderText_of_header?, fun h => header?_of_isHeaderText h.1 h.2⟩

/-- Behind `include` a text that begins with another name has no blank: one of the two names is
longer, and goes on where the other one ends. -/
theorem not_isBlank_of_after?_include {rest behind : List Char} (hname : IsProcedureName name)
    (hrest : ∀ c, rest.head? = some c → isNameChar c = false) (hne : name ≠ "include")
    (h : after? "include".toList (name.toList ++ rest) = some behind) :
    ∀ c, behind.head? = some c → isBlank c = false := by
  intro c hc
  rcases List.append_eq_append_iff.1 (after?_eq_some h) with ⟨a, ha, hbehind⟩ | ⟨a, ha, hbehind⟩
  · cases a with
    | nil => exact absurd (String.toList_injective (by simpa using ha.symm)) hne
    | cons d a =>
      have hall : ∀ e ∈ "include".toList, isNameChar e = true := by
        rw [← List.all_eq_true]
        decide
      have hd : isNameChar d = true := hall d (by simp [ha])
      cases (hrest d (by rw [hbehind]; rfl)).symm.trans hd
  · cases a with
    | nil => exact absurd (String.toList_injective (by simpa using ha)) hne
    | cons d a =>
      rw [hbehind] at hc
      obtain rfl := Option.some.inj hc
      exact hname.not_isBlank d (by simp [ha])

/-- A header is taken for an include only when `include` is its name, with blanks behind it. -/
theorem isSome_includeTarget? {bs rest : List Char} (hname : IsProcedureName name)
    (hbs : ∀ c ∈ bs, isBlank c = true)
    (htrim : Text.trim line.toList = name.toList ++ (bs ++ '(' :: rest)) :
    (includeTarget? line).isSome = decide (name = "include" ∧ bs ≠ []) := by
  unfold includeTarget?
  rw [htrim]
  by_cases hinclude : name = "include"
  · subst hinclude
    rw [after?_append]
    cases bs with
    | nil => rfl
    | cons c bs =>
      have htarget : unwrap (Text.trim (c :: (bs ++ '(' :: rest))) = '(' :: Text.trimEnd rest := by
        unfold Text.trim
        rw [← List.cons_append, Text.trimStart_append_of_blank hbs,
          Text.trimStart_eq_self (by rintro d ⟨⟩; decide), Text.trimEnd_cons (by decide)]
        rfl
      simp [hbs c List.mem_cons_self, htarget]
  · cases hafter : after? "include".toList (name.toList ++ (bs ++ '(' :: rest)) with
    | none => simp [hinclude]
    | some behind =>
      have hblank :=
        not_isBlank_of_after?_include hname (not_isNameChar_of_head? hbs) hinclude hafter
      cases hhead : behind.head? with
      | none => simp [hhead, hinclude]
      | some c => simp [hhead, hblank c hhead, hinclude]

theorem classify_eq_header_iff :
    classify line = .header name b ↔
      includeTarget? line = none ∧ header? line = some (name, b) := by
  constructor
  · intro h
    unfold classify at h
    split at h
    · cases h
    next hinclude =>
    split at h
    · next hheader =>
      obtain ⟨rfl, rfl⟩ := LineKind.header.inj h
      exact ⟨hinclude, hheader⟩
    split at h
    · cases h
    split at h
    · cases h
    split at h
    · cases h
    split at h
    · cases h
    split at h
    · cases h
    split at h <;> cases h
  · rintro ⟨hinclude, hheader⟩
    unfold classify
    rw [hinclude, hheader]

theorem header?_of_classify (h : classify line = .header name b) : header? line = some (name, b) :=
  (classify_eq_header_iff.1 h).2

theorem isProcedureName_of_classify (h : classify line = .header name b) : IsProcedureName name :=
  (header?_eq_some_iff.1 (header?_of_classify h)).1

end HeaderText

/-! ## The row of a header -/

/-- The row that declares a procedure and opens its block. -/
def headerRow (name : String) (b : Bracket) : String :=
  name ++ "() " ++ b.opening

theorem toList_headerRow (name : String) (b : Bracket) :
    (headerRow name b).toList = name.toList ++ '(' :: ')' :: ' ' :: b.opening.toList := by
  simp [headerRow]

theorem header?_headerRow {name : String} (h : IsProcedureName name) (b : Bracket) :
    header? (headerRow name b) = some (name, some b) := by
  refine header?_of_isHeaderText h ⟨[], [], [], [' '], [], by simp; decide, ?_⟩
  rw [toList_headerRow]
  simp [bracketText]

theorem includeTarget?_headerRow {name : String} (h : IsProcedureName name) (b : Bracket) :
    includeTarget? (headerRow name b) = none := by
  have hnoBlank : ∀ c ∈ ([] : List Char), isBlank c = true := by simp
  have htrim := trim_of_name h hnoBlank ['('] _ (toList_headerRow name b)
  have hnone := isSome_includeTarget? h hnoBlank htrim
  simpa using hnone

/-- **Headers.** The row of a header is read as this header. -/
theorem classify_headerRow {name : String} (h : IsProcedureName name) (b : Bracket) :
    classify (headerRow name b) = .header name (some b) :=
  classify_eq_header_iff.2 ⟨includeTarget?_headerRow h b, header?_headerRow h b⟩

/-! ## A header without its bracket -/

/-- When the bracket behind a header is cut off, with the blanks around it or without them, the
header stays the same but for its bracket. -/
theorem classify_of_bracket_cut {line bare name : String} {b : Bracket} {gap tail : List Char}
    (h : classify line = .header name (some b))
    (hline : line.toList = bare.toList ++ gap ++ b.opening.toList ++ tail)
    (hgap : ∀ c ∈ gap, isBlank c = true) (htail : ∀ c ∈ tail, isBlank c = true) :
    classify bare = .header name none := by
  obtain ⟨hinclude, hheader⟩ := classify_eq_header_iff.1 h
  obtain ⟨hname, s₀, s₁, s₂, s₃, s₄, hblanks, htext⟩ := header?_eq_some_iff.1 hheader
  simp only [List.forall_mem_append] at hblanks
  obtain ⟨⟨⟨⟨hs₀, hs₁⟩, hs₂⟩, hs₃⟩, hs₄⟩ := hblanks
  have hbare : bare.toList ++ gap = s₀ ++ (name.toList ++ (s₁ ++ '(' :: (s₂ ++ ')' :: s₃))) := by
    have hcut : ∀ cs bs, (∀ c ∈ bs, isBlank c = true) →
        Text.trimEnd (cs ++ b.opening.toList ++ bs) = cs ++ b.opening.toList := by
      intro cs bs hbs
      rw [Text.trimEnd_append_of_blank hbs]
      apply Text.trimEnd_eq_self
      intro c hc
      cases b <;> (simp [Bracket.opening] at hc; subst hc; decide)
    have hbehind : line.toList =
        s₀ ++ (name.toList ++ (s₁ ++ '(' :: (s₂ ++ ')' :: s₃))) ++ b.opening.toList ++ s₄ := by
      simpa [bracketText] using htext
    have hsame := congrArg Text.trimEnd (hline.symm.trans hbehind)
    rw [hcut _ _ htail, hcut _ _ hs₄] at hsame
    exact List.append_cancel_right hsame
  have htrim : Text.trim (bare.toList ++ gap) = Text.trim bare.toList :=
    Text.trim_append_blank hgap bare.toList
  refine classify_eq_header_iff.2 ⟨?_, ?_⟩
  · have hbareTrim := trim_of_name hname hs₀ (s₁ ++ '(' :: s₂) s₃ (by simpa using hbare)
    have hlineTrim := trim_of_name hname hs₀ (s₁ ++ '(' :: s₂) (s₃ ++ b.opening.toList ++ s₄)
      (by simpa [bracketText] using htext)
    rw [htrim, List.append_assoc] at hbareTrim
    rw [List.append_assoc] at hlineTrim
    have hnone := isSome_includeTarget? hname hs₁ hlineTrim
    rw [hinclude, ← isSome_includeTarget? hname hs₁ hbareTrim] at hnone
    exact Option.isNone_iff_eq_none.1 (by simpa using hnone.symm)
  · have hgapped : header? (String.ofList (bare.toList ++ gap)) = some (name, none) := by
      refine header?_of_isHeaderText hname ⟨s₀, s₁, s₂, s₃, [], ?_, ?_⟩
      · simp only [List.append_nil, List.forall_mem_append]
        exact ⟨⟨⟨hs₀, hs₁⟩, hs₂⟩, hs₃⟩
      · rw [String.toList_ofList, hbare]
        simp [bracketText]
    unfold header? at hgapped ⊢
    rw [String.toList_ofList, htrim] at hgapped
    exact hgapped

end Runbook.Document
