import Runbook.Proofs.Document.Recognition

/-!
# Forms of lines

The recognisers of a line are asked in different orders at different places. Apart from includes no
line has two forms (`Form.eq_of_fits`): the first character of a line tells brackets, blank lines
and comments from each other and from what starts with a name, and behind the name a header goes on
with another character than an assignment. So the order does not matter (`classify_eq_classifyIn`),
and a line inside brackets, or behind a header, is what it is elsewhere.
-/

namespace Runbook.Document

open Text (trim trimStart isBlank)

/-- The forms that a line can have, includes apart. -/
inductive Form where
  | left
  | right
  | empty
  /-- A comment line, an attribute or not. -/
  | comment
  | header
  | assignment
  deriving DecidableEq, Repr

namespace Form

/-- What a line of the form is, when it has the form. -/
def kind? (line : String) : Form → Option LineKind
  | left => (leftBracket? line).map .left
  | right => (rightBracket? line).map .right
  | empty => if isEmptyLine line then some .empty else none
  | comment =>
    if isCommentLine line then some (if isAttributeLine line then .attribute else .comment)
    else none
  | header => (header? line).map fun (name, b) => .header name b
  | assignment => (assignment? line).map fun (name, value) => .variable name value

def Fits (f : Form) (line : String) : Prop :=
  ∃ k, f.kind? line = some k

/-- The forms of the lines that start with a character, or have none, when the blanks around them
are cut. -/
def startingWith : Option Char → List Form
  | none => [empty]
  | some c =>
    if c = '\x7b' then [left]
    else if c = '\x7d' then [right]
    else if c = '#' then [comment]
    else [header, assignment]

end Form

/-- What a line is when its form is looked for in some order, behind includes. -/
def classifyIn (order : List Form) (line : String) : LineKind :=
  match includeTarget? line with
  | some target => .include target
  | none => (order.findSome? (·.kind? line)).getD .command

section Forms

variable {line : String} {f g : Form} {c : Option Char} {k : LineKind} {order : List Form}

/-! ## The first character -/

theorem startingWith_of_identifier? {isTail : Char → Bool} {cs : List Char}
    {x : List Char × List Char} (h : identifier? isTail cs = some x) :
    Form.startingWith cs.head? = [.header, .assignment] := by
  cases cs with
  | nil => cases h
  | cons d cs =>
    rw [identifier?] at h
    split at h
    · next hd =>
      have hne : ∀ e : Char, ¬(e.isAlpha = true ∨ e = '_') → d ≠ e := by
        rintro e he rfl
        exact he hd
      show (if _ then _ else _) = _
      rw [if_neg (hne _ (by decide)), if_neg (hne _ (by decide)), if_neg (hne _ (by decide))]
    · cases h

/-- The line begins with a name, and the mark stands behind it. -/
def BeginsWithName (isTail : Char → Bool) (mark : Char) (line : String) : Prop :=
  ∃ name rest behind, identifier? isTail (trim line.toList) = some (name, rest) ∧
    trimStart rest = mark :: behind

theorem beginsWithName_of_bind {α : Type} {isTail : Char → Bool} {mark : Char}
    {read : List Char × List Char → List Char → Option α} {x : α}
    (h : ((identifier? isTail (trim line.toList)).bind fun y =>
      (after? [mark] (trimStart y.2)).bind (read y)) = some x) :
    BeginsWithName isTail mark line := by
  obtain ⟨⟨name, rest⟩, hname, h⟩ := Option.bind_eq_some_iff.1 h
  obtain ⟨behind, hbehind, -⟩ := Option.bind_eq_some_iff.1 h
  exact ⟨name, rest, behind, hname, after?_eq_some hbehind⟩

theorem Form.Fits.mem_startingWith (h : f.Fits line) :
    f ∈ startingWith (trim line.toList).head? := by
  obtain ⟨k, hk⟩ := h
  cases f with
  | left =>
    obtain ⟨b, hb, -⟩ := Option.map_eq_some_iff.1 hk
    rw [trim_of_leftBracket? hb]
    cases b <;> exact List.mem_singleton_self _
  | right =>
    obtain ⟨b, hb, -⟩ := Option.map_eq_some_iff.1 hk
    rw [trim_of_rightBracket? hb]
    cases b <;> exact List.mem_singleton_self _
  | empty =>
    obtain ⟨hempty, -⟩ := Option.ite_none_right_eq_some.1 hk
    rw [List.isEmpty_iff.1 hempty]
    exact List.mem_singleton_self _
  | comment =>
    obtain ⟨hcomment, -⟩ := Option.ite_none_right_eq_some.1 hk
    have hhead : (trimStart line.toList).head? = some '#' := of_decide_eq_true hcomment
    rw [Text.head?_trim, hhead]
    exact List.mem_singleton_self _
  | header =>
    obtain ⟨x, hx, -⟩ := Option.map_eq_some_iff.1 hk
    obtain ⟨_, _, _, hname, -⟩ : BeginsWithName isNameChar '(' line := beginsWithName_of_bind hx
    rw [startingWith_of_identifier? hname]
    decide
  | assignment =>
    obtain ⟨x, hx, -⟩ := Option.map_eq_some_iff.1 hk
    obtain ⟨_, _, _, hname, -⟩ : BeginsWithName isVariableChar '=' line :=
      beginsWithName_of_bind hx
    rw [startingWith_of_identifier? hname]
    decide

/-- The start of a line leaves one form, but for a name. -/
theorem Form.startingWith_cases (c : Option Char) :
    startingWith c = [header, assignment] ∨ ∃ f, startingWith c = [f] := by
  unfold startingWith
  split
  · exact .inr ⟨_, rfl⟩
  · split_ifs
    · exact .inr ⟨_, rfl⟩
    · exact .inr ⟨_, rfl⟩
    · exact .inr ⟨_, rfl⟩
    · exact .inl rfl

theorem startingWith_of_includeTarget? {target : String} (h : includeTarget? line = some target) :
    Form.startingWith (trim line.toList).head? = [.header, .assignment] := by
  unfold includeTarget? at h
  obtain ⟨rest, hrest, -⟩ := Option.bind_eq_some_iff.1 h
  rw [after?_eq_some hrest]
  rfl

/-! ## Names -/

/-- A name by one rule is a name by a wider one, when it ends where the wider one lets it end. -/
theorem identifier?_of_imp {isTail isTail' : Char → Bool} {cs name rest : List Char}
    (himp : ∀ c, isTail c = true → isTail' c = true)
    (h : identifier? isTail cs = some (name, rest))
    (hrest : ∀ c, rest.head? = some c → isTail' c = false) :
    identifier? isTail' cs = some (name, rest) := by
  obtain ⟨c, tail, rfl, hc, htail⟩ := identifier?_self (identifier?_of_identifier? h)
  rw [identifier?_eq_some h]
  exact identifier?_cons_append hc (fun d hd => himp d (htail d hd)) hrest

/-- No assignment is a header: the blanks or the `=` behind its name end every name. -/
theorem header?_eq_none_of_assignment? {x : String × String} (h : assignment? line = some x) :
    header? line = none := by
  obtain ⟨name, rest, value, hname, hvalue⟩ : BeginsWithName isVariableChar '=' line :=
    beginsWithName_of_bind h
  have hends : ∀ c, rest.head? = some c → isNameChar c = false := by
    intro c hc
    obtain ⟨bs, hbs, hrest⟩ := Text.exists_trimStart rest
    rw [hrest, hvalue] at hc
    cases bs with
    | nil =>
      obtain rfl := Option.some.inj hc
      decide
    | cons b bs =>
      obtain rfl := Option.some.inj hc
      exact isNameChar_of_isBlank (hbs b List.mem_cons_self)
  have hsame := identifier?_of_imp (fun c => isNameChar_of_isOptionChar) hname hends
  rw [Option.eq_none_iff_forall_ne_some]
  intro y hy
  obtain ⟨name', rest', behind, hname', hbehind⟩ : BeginsWithName isNameChar '(' line :=
    beginsWithName_of_bind hy
  obtain ⟨-, rfl⟩ := Prod.mk.inj (Option.some.inj (hname'.symm.trans hsame))
  cases hvalue.symm.trans hbehind

/-! ## One form at most -/

theorem Form.not_fits_header_of_assignment (h : assignment.Fits line) : ¬header.Fits line := by
  obtain ⟨_, hx⟩ := h
  obtain ⟨x, hx, -⟩ := Option.map_eq_some_iff.1 hx
  rintro ⟨_, hy⟩
  obtain ⟨y, hy, -⟩ := Option.map_eq_some_iff.1 hy
  cases (header?_eq_none_of_assignment? hx).symm.trans hy

theorem Form.eq_of_fits (hf : f.Fits line) (hg : g.Fits line) : f = g := by
  have hfmem := hf.mem_startingWith
  have hgmem := hg.mem_startingWith
  rcases startingWith_cases (trim line.toList).head? with hnamed | ⟨e, he⟩
  · rw [hnamed, List.mem_cons, List.mem_singleton] at hfmem hgmem
    rcases hfmem with rfl | rfl <;> rcases hgmem with rfl | rfl
    · rfl
    · exact absurd hf (not_fits_header_of_assignment hg)
    · exact absurd hg (not_fits_header_of_assignment hf)
    · rfl
  · rw [he] at hfmem hgmem
    exact (List.mem_singleton.1 hfmem).trans (List.mem_singleton.1 hgmem).symm

/-- An include can be a header or an assignment as well, but nothing else. -/
theorem Form.eq_of_includeTarget? {target : String} (hline : includeTarget? line = some target)
    (h : f.Fits line) : f = header ∨ f = assignment := by
  have hmem := h.mem_startingWith
  rw [startingWith_of_includeTarget? hline] at hmem
  simpa using hmem

/-! ## The order of the forms -/

theorem findSome?_kind?_iff (horder : ∀ f, f ∈ order) :
    order.findSome? (·.kind? line) = some k ↔ ∃ f : Form, f.kind? line = some k := by
  constructor
  · intro h
    obtain ⟨f, -, hf⟩ := List.exists_of_findSome?_eq_some h
    exact ⟨f, hf⟩
  · rintro ⟨f, hf⟩
    have hfound : (order.findSome? (·.kind? line)).isSome := by
      rw [List.findSome?_isSome_iff]
      exact ⟨f, horder f, by rw [hf]; rfl⟩
    obtain ⟨k', hk'⟩ := Option.isSome_iff_exists.1 hfound
    obtain ⟨g, -, hg⟩ := List.exists_of_findSome?_eq_some hk'
    obtain rfl := Form.eq_of_fits ⟨k', hg⟩ ⟨k, hf⟩
    rw [hk', ← hg, hf]

theorem classify_eq_classifyIn_forms (line : String) : classify line =
    classifyIn [.header, .left, .right, .empty, .comment, .assignment] line := by
  unfold classify classifyIn
  simp only [List.findSome?_cons, List.findSome?_nil, Form.kind?]
  cases includeTarget? line with
  | some target => rfl
  | none =>
    cases header? line with
    | some x => rfl
    | none =>
      cases leftBracket? line with
      | some b => rfl
      | none =>
        cases rightBracket? line with
        | some b => rfl
        | none =>
          by_cases hempty : isEmptyLine line = true
          · simp [hempty]
          · by_cases hcomment : isCommentLine line = true
            · by_cases hattribute : isAttributeLine line = true <;>
                simp [hempty, hcomment, hattribute]
            · have hattribute := mt isCommentLine_of_isAttributeLine hcomment
              cases assignment? line <;> simp [hempty, hcomment, hattribute]

/-- **Order.** Behind includes the forms of a line can be looked for in any order. -/
theorem classify_eq_classifyIn (horder : ∀ f, f ∈ order) :
    classify line = classifyIn order line := by
  have hsame : order.findSome? (·.kind? line) =
      [Form.header, .left, .right, .empty, .comment, .assignment].findSome? (·.kind? line) := by
    apply Option.ext
    intro k
    rw [findSome?_kind?_iff horder, findSome?_kind?_iff (by rintro ⟨⟩ <;> decide)]
  rw [classify_eq_classifyIn_forms]
  unfold classifyIn
  rw [hsame]

theorem classify_of_kind? (h : f.kind? line = some k) (hheader : f ≠ .header)
    (hassignment : f ≠ .assignment) : classify line = k := by
  rw [classify_eq_classifyIn_forms]
  unfold classifyIn
  cases hinclude : includeTarget? line with
  | some target =>
    rcases Form.eq_of_includeTarget? hinclude ⟨k, h⟩ with rfl | rfl
    · exact absurd rfl hheader
    · exact absurd rfl hassignment
  | none =>
    rw [(findSome?_kind?_iff (by rintro ⟨⟩ <;> decide)).2 ⟨f, h⟩]
    rfl

/-! ## Lines inside brackets and behind headers -/

/-- What a line inside brackets does when it is this outside of them. -/
def Nest.stepAs (n : Nest) (t : Table) (pos : Position) (line : String) :
    LineKind → Logged LoadError Advance
  | .right found =>
    if found = n.inner.bracket then return n.close t
    else throw (.mismatchedBracket pos found n.inner.bracket)
  | .left b => return .inside ⟨.new b, n.inner :: n.outer, none⟩ t
  | .empty | .attribute | .comment => return .inside n t
  | .include _ | .header _ _ | .variable _ _ | .command =>
    n.readCommand t pos (Shell.firstLine line)

/-- What a line between a header and its bracket does when it is this elsewhere. -/
def State.stepHeaderAs (s : State) (d : Declaration) (pos : Position) :
    LineKind → Logged LoadError State
  | .empty | .comment => return s
  | .attribute => throw (.unexpectedAttribute pos)
  | .left b => return s.enter (.body (some d) (.new b))
  | .include _ | .header _ _ | .right _ | .variable _ _ | .command =>
    throw (.expectedLeftBracket pos)

theorem classify_of_named (hleft : leftBracket? line = none) (hright : rightBracket? line = none)
    (hempty : ¬isEmptyLine line = true) (hcomment : ¬isCommentLine line = true) :
    (∃ target, classify line = .include target) ∨ (∃ name b, classify line = .header name b) ∨
      (∃ name value, classify line = .variable name value) ∨ classify line = .command := by
  have hattribute := mt isCommentLine_of_isAttributeLine hcomment
  unfold classify
  rw [hleft, hright, if_neg hempty, if_neg hattribute, if_neg hcomment]
  cases includeTarget? line with
  | some target => exact .inl ⟨target, rfl⟩
  | none =>
    cases header? line with
    | some x => exact .inr (.inl ⟨x.1, x.2, rfl⟩)
    | none =>
      cases assignment? line with
      | some x => exact .inr (.inr (.inl ⟨x.1, x.2, rfl⟩))
      | none => exact .inr (.inr (.inr rfl))

theorem classify_of_isEmptyLine (h : isEmptyLine line = true) : classify line = .empty :=
  classify_of_kind? (f := .empty) (if_pos h) (by decide) (by decide)

theorem classify_of_isAttributeLine (h : isAttributeLine line = true) :
    classify line = .attribute :=
  classify_of_kind? (f := .comment)
    ((if_pos (isCommentLine_of_isAttributeLine h)).trans (by rw [if_pos h])) (by decide) (by decide)

theorem classify_of_isCommentLine (h : isCommentLine line = true)
    (hattribute : ¬isAttributeLine line = true) : classify line = .comment :=
  classify_of_kind? (f := .comment) ((if_pos h).trans (by rw [if_neg hattribute])) (by decide)
    (by decide)

theorem classify_of_skipped (h : isEmptyLine line = true ∨ isCommentLine line = true) :
    classify line = .empty ∨ classify line = .attribute ∨ classify line = .comment := by
  rcases h with hempty | hcomment
  · exact .inl (classify_of_isEmptyLine hempty)
  · by_cases hattribute : isAttributeLine line = true
    · exact .inr (.inl (classify_of_isAttributeLine hattribute))
    · exact .inr (.inr (classify_of_isCommentLine hcomment hattribute))

theorem classify_of_leftBracket? {b : Bracket} (h : leftBracket? line = some b) :
    classify line = .left b :=
  classify_of_kind? (f := .left) (by rw [Form.kind?, h]; rfl) (by decide) (by decide)

theorem classify_of_rightBracket? {b : Bracket} (h : rightBracket? line = some b) :
    classify line = .right b :=
  classify_of_kind? (f := .right) (by rw [Form.kind?, h]; rfl) (by decide) (by decide)

/-- Inside brackets a closing bracket is looked for first, and names not at all. -/
theorem Nest.step_eq_stepAs {n : Nest} (hn : n.command = none) (t : Table) (pos : Position)
    (line : String) : n.step t pos line = n.stepAs t pos line (classify line) := by
  unfold step
  rw [hn]
  cases hright : rightBracket? line with
  | some found => rw [classify_of_rightBracket? hright]; rfl
  | none =>
    cases hleft : leftBracket? line with
    | some b => rw [classify_of_leftBracket? hleft]; rfl
    | none =>
      change (if isEmptyLine line ∨ isCommentLine line then _ else _) = _
      by_cases hskip : isEmptyLine line = true ∨ isCommentLine line = true
      · rw [if_pos hskip]
        rcases classify_of_skipped hskip with hline | hline | hline <;> rw [hline] <;> rfl
      · rw [if_neg hskip]
        obtain ⟨hempty, hcomment⟩ := not_or.1 hskip
        rcases classify_of_named hleft hright hempty hcomment with
          ⟨_, hline⟩ | ⟨_, _, hline⟩ | ⟨_, _, hline⟩ | hline <;> rw [hline] <;> rfl

/-- Behind a header a bracket is looked for last. -/
theorem State.stepHeader_eq_stepHeaderAs (s : State) (d : Declaration) (pos : Position)
    (line : String) : s.stepHeader d pos line = s.stepHeaderAs d pos (classify line) := by
  unfold stepHeader
  by_cases hempty : isEmptyLine line = true
  · rw [if_pos hempty, classify_of_isEmptyLine hempty]
    rfl
  by_cases hattribute : isAttributeLine line = true
  · rw [if_neg hempty, if_pos hattribute, classify_of_isAttributeLine hattribute]
    rfl
  by_cases hcomment : isCommentLine line = true
  · rw [if_neg hempty, if_neg hattribute, if_pos hcomment,
      classify_of_isCommentLine hcomment hattribute]
    rfl
  rw [if_neg hempty, if_neg hattribute, if_neg hcomment]
  cases hleft : leftBracket? line with
  | some b => rw [classify_of_leftBracket? hleft]; rfl
  | none =>
    cases hright : rightBracket? line with
    | some b => rw [classify_of_rightBracket? hright]; rfl
    | none =>
      rcases classify_of_named hleft hright hempty hcomment with
        ⟨_, hline⟩ | ⟨_, _, hline⟩ | ⟨_, _, hline⟩ | hline <;> rw [hline] <;> rfl

/-- **One form.** Behind includes the order in which the forms of a line are asked for does not
matter: no line has two of them, an include has no other form than those of a name, and lines inside
brackets or behind a header are told apart by what they are elsewhere. -/
theorem classify_eq_of_orders (line : String) :
    (∀ f g : Form, f.Fits line → g.Fits line → f = g) ∧
      ((includeTarget? line).isSome = true →
        ∀ f : Form, f.Fits line → f = .header ∨ f = .assignment) ∧
      (isAttributeLine line = true → isCommentLine line = true) ∧
      (∀ order : List Form, (∀ f, f ∈ order) → classify line = classifyIn order line) ∧
      (∀ (n : Nest) (t : Table) (pos : Position), n.command = none →
        n.step t pos line = n.stepAs t pos line (classify line)) ∧
      ∀ (s : State) (d : Declaration) (pos : Position),
        s.stepHeader d pos line = s.stepHeaderAs d pos (classify line) := by
  refine ⟨fun f g hf hg => Form.eq_of_fits hf hg, fun h f hf => ?_,
    isCommentLine_of_isAttributeLine, fun order horder => classify_eq_classifyIn horder,
    fun n t pos hn => Nest.step_eq_stepAs hn t pos line,
    fun s d pos => State.stepHeader_eq_stepHeaderAs s d pos line⟩
  obtain ⟨target, htarget⟩ := Option.isSome_iff_exists.1 h
  exact Form.eq_of_includeTarget? htarget hf

/-- Looked for from the last form to the first, an include is the same with a header in it. -/
theorem classify_eq_of_orders_header :
    (includeTarget? "include ()").isSome = true ∧ Form.header.Fits "include ()" ∧
      classify "include ()" =
        classifyIn [.assignment, .comment, .empty, .right, .left, .header] "include ()" ∧
      ∀ f : Form, f.Fits "include ()" → f = .header := by
  have hheader : Form.header.Fits "include ()" := ⟨.header "include" none, by decide⟩
  obtain ⟨hone, -, -, horder, -⟩ := classify_eq_of_orders "include ()"
  exact ⟨by decide, hheader, horder _ (by rintro ⟨⟩ <;> decide), fun f hf => hone f _ hf hheader⟩

/-- An include with the form of a header, and one with the form of an assignment. -/
example : classify "include ()" = .include "()" ∧ header? "include ()" = some ("include", none) ∧
    classify "include = x" = .include "= x" ∧
      assignment? "include = x" = some ("include", "x") := by
  decide

end Forms

end Runbook.Document
