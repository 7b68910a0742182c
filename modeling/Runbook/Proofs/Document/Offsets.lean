import Runbook.Document.Line
import Runbook.Proofs.Text.Slice

/-!
# Lines by byte offsets

An identifier, or a name in quotes or brackets, may be cut out of its line by byte offsets. The
offsets lie between two characters, whatever else the line holds, so each recogniser that cuts by
offsets finds what the one that goes through the characters finds (`classifyByOffset_eq`).
-/

namespace Runbook.Document

open Text (BadOffset byteLength trim trimStart)

/-! ## Identifiers -/

/-- The number of bytes of the identifier at the start of a text. -/
def identifierLength (isTail : Char → Bool) : List Char → Nat
  | [] => 0
  | c :: cs =>
    if c.isAlpha ∨ c = '_' then c.utf8Size + (Text.find? (!isTail ·) cs).getD (byteLength cs)
    else 0

/-- An identifier at the start of the text, and what follows it, cut by its length. -/
def identifierByOffset? (isTail : Char → Bool) (cs : List Char) :
    Except BadOffset (Option (List Char × List Char)) :=
  let n := identifierLength isTail cs
  if n = 0 then .ok none else (Text.cut n cs).map some

theorem identifierByOffset?_eq (isTail : Char → Bool) (cs : List Char) :
    identifierByOffset? isTail cs = .ok (identifier? isTail cs) := by
  unfold identifierByOffset? identifierLength identifier?
  cases cs with
  | nil => rfl
  | cons c cs =>
    by_cases hc : c.isAlpha = true ∨ c = '_'
    · have hsize := c.utf8Size_pos
      have hcut := Text.cut_append (c :: cs.takeWhile isTail) (cs.dropWhile isTail)
      rw [List.cons_append, List.takeWhile_append_dropWhile, Text.byteLength_cons] at hcut
      simp only [if_pos hc]
      rw [if_neg (by omega), Text.find?_getD, hcut]
      rfl
    · simp only [if_neg hc]
      rfl

/-! ## Names between two characters -/

/-- The text between two characters, cut out of what they stand around. -/
def pairByOffset? (opening closing : Char) (cs : List Char) :
    Except BadOffset (Option (List Char)) :=
  if 2 ≤ byteLength cs ∧ cs.head? = some opening ∧ cs.getLast? = some closing then
    (Text.slice 1 (byteLength cs - 1) cs).map some
  else .ok none

theorem pairByOffset?_eq {opening closing : Char} (hopening : opening.utf8Size = 1)
    (hclosing : closing.utf8Size = 1) (cs : List Char) :
    pairByOffset? opening closing cs = .ok (between? opening closing cs) := by
  unfold pairByOffset?
  cases cs with
  | nil => rfl
  | cons c cs =>
    rcases List.eq_nil_or_concat cs with rfl | ⟨name, d, rfl⟩
    · -- one character does not stand for both
      have hshort : ¬(2 ≤ byteLength [c] ∧ [c].head? = some opening ∧
          [c].getLast? = some closing) := by
        rintro ⟨hlength, hhead, -⟩
        obtain rfl := Option.some.inj hhead
        rw [Text.byteLength_cons, hopening, Text.byteLength_nil] at hlength
        omega
      rw [if_neg hshort]
      simp [between?]
    · rw [List.concat_eq_append]
      by_cases hends : c = opening ∧ d = closing
      · obtain ⟨rfl, rfl⟩ := hends
        have hlength : 2 ≤ byteLength (c :: (name ++ [d])) := by
          simp only [Text.byteLength_cons, Text.byteLength_append, hopening, hclosing]
          omega
        have hlast : (c :: (name ++ [d])).getLast? = some d := by
          rw [← List.cons_append, List.getLast?_concat]
        rw [if_pos ⟨hlength, rfl, hlast⟩, Text.slice_between hopening hclosing]
        simp [between?, Except.map]
      · have hother : ¬(2 ≤ byteLength (c :: (name ++ [d])) ∧
            (c :: (name ++ [d])).head? = some opening ∧
            (c :: (name ++ [d])).getLast? = some closing) := by
          rintro ⟨-, hhead, hlast⟩
          rw [← List.cons_append, List.getLast?_concat] at hlast
          exact hends ⟨Option.some.inj hhead, Option.some.inj hlast⟩
        rw [if_neg hother]
        simp [between?, hends]

/-- A text without the quotes or angle brackets around it. -/
def unwrapByOffset (cs : List Char) : Except BadOffset (List Char) := do
  match ← pairByOffset? '\x22' '\x22' cs with
  | some name => return name
  | none =>
    match ← pairByOffset? '\x27' '\x27' cs with
    | some name => return name
    | none => return (← pairByOffset? '<' '>' cs).getD cs

theorem unwrapByOffset_eq (cs : List Char) : unwrapByOffset cs = .ok (unwrap cs) := by
  have hquote : ('\x22' : Char).utf8Size = 1 := by decide
  have happ : ('\x27' : Char).utf8Size = 1 := by decide
  have hleft : ('<' : Char).utf8Size = 1 := by decide
  have hright : ('>' : Char).utf8Size = 1 := by decide
  unfold unwrapByOffset unwrap
  rw [pairByOffset?_eq hquote hquote, pairByOffset?_eq happ happ, pairByOffset?_eq hleft hright]
  cases between? '\x22' '\x22' cs with
  | some name => rfl
  | none =>
    cases between? '\x27' '\x27' cs with
    | some name => rfl
    | none => rfl

/-! ## Lines -/

/-- The file that a line `include file` names. -/
def includeByOffset? (line : String) : Except BadOffset (Option String) :=
  match after? "include".toList (trim line.toList) with
  | none => .ok none
  | some rest =>
    match rest.head? with
    | none => .ok none
    | some c =>
      if Text.isBlank c then do
        let target ← unwrapByOffset (trim rest)
        return if target.isEmpty then none else some (String.ofList target)
      else .ok none

/-- The name in a header `name()`, and the opening bracket behind it on the same line. -/
def headerByOffset? (line : String) : Except BadOffset (Option (String × Option Bracket)) := do
  let found ← identifierByOffset? isNameChar (trim line.toList)
  return do
    let (name, rest) ← found
    let rest ← after? ['('] (trimStart rest)
    let rest ← after? [')'] (trimStart rest)
    let rest := trim rest
    if rest.isEmpty then some (String.ofList name, none)
    else
      let b ← openingOf? rest
      some (String.ofList name, some b)

/-- Name and value of a line `name = value`. -/
def assignmentByOffset? (line : String) : Except BadOffset (Option (String × String)) := do
  let found ← identifierByOffset? isVariableChar (trim line.toList)
  return do
    let (name, rest) ← found
    let value ← after? ['='] (trimStart rest)
    some (String.ofList name, String.ofList (trim value))

def classifyByOffset (line : String) : Except BadOffset LineKind := do
  match ← includeByOffset? line with
  | some target => return .include target
  | none =>
  match ← headerByOffset? line with
  | some (name, b) => return .header name b
  | none =>
  match leftBracket? line with
  | some b => return .left b
  | none =>
  match rightBracket? line with
  | some b => return .right b
  | none =>
  if isEmptyLine line then return .empty
  else if isAttributeLine line then return .attribute
  else if isCommentLine line then return .comment
  else
  match ← assignmentByOffset? line with
  | some (name, value) => return .variable name value
  | none => return .command

theorem includeByOffset?_eq (line : String) :
    includeByOffset? line = .ok (includeTarget? line) := by
  unfold includeByOffset? includeTarget?
  cases after? "include".toList (trim line.toList) with
  | none => rfl
  | some rest =>
    cases hhead : rest.head? with
    | none => simp [hhead]
    | some c =>
      by_cases hblank : Text.isBlank c = true
      · simp only [hhead, hblank, if_true, unwrapByOffset_eq, Option.bind_eq_bind,
          Option.bind_some]
        rfl
      · simp [hhead, hblank]

theorem headerByOffset?_eq (line : String) : headerByOffset? line = .ok (header? line) := by
  unfold headerByOffset?
  rw [identifierByOffset?_eq]
  rfl

theorem assignmentByOffset?_eq (line : String) :
    assignmentByOffset? line = .ok (assignment? line) := by
  unfold assignmentByOffset?
  rw [identifierByOffset?_eq]
  rfl

/-- **Lines by offsets.** Every cut lies inside the line and between two characters. -/
theorem classifyByOffset_eq (line : String) : classifyByOffset line = .ok (classify line) := by
  unfold classifyByOffset classify
  rw [includeByOffset?_eq, headerByOffset?_eq, assignmentByOffset?_eq]
  cases includeTarget? line with
  | some target => rfl
  | none =>
  cases header? line with
  | some found => rfl
  | none =>
  cases leftBracket? line with
  | some b => rfl
  | none =>
  cases rightBracket? line with
  | some b => rfl
  | none =>
  cases isEmptyLine line with
  | true => rfl
  | false =>
  cases isAttributeLine line with
  | true => rfl
  | false =>
  cases isCommentLine line with
  | true => rfl
  | false => cases assignment? line <;> rfl

end Runbook.Document
