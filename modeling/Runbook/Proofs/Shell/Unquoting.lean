import Mathlib.Tactic.SplitIfs
import Runbook.Proofs.Shell.Segments

/-!
# Values without lapses

`unquote` is lenient with text that is no word. `unquoteExactly` reads text the same way, but it
reports a `Lapse` where `unquote` has to guess; a value that it gives is the one that `unquote`
gives (`unquoteFrom_of_valueFrom`). The text of a word with well-formed segments is read as the
values of these without a lapse (`unquoteExactly_text`).
-/

namespace Runbook.Shell

/-- What a text lacks that is no word. -/
inductive Lapse where
  /-- It ends within quotes. -/
  | unclosedQuote
  /-- It ends behind a backslash. -/
  | trailingBackslash
  /-- A backslash in double quotes stands before a character that no escape has. -/
  | unsupportedEscape (c : Char)
  /-- A numeric escape has fewer than two digits. -/
  | missingDigit (r : Radix)
  /-- A numeric escape gives no character. -/
  | noCharacter (n : Nat)
  deriving DecidableEq, Repr

/-- The base of the numeric escape with the letter `c`, if there is one. -/
def Radix.ofLetter? (c : Char) : Option Radix :=
  if c = Radix.hexadecimal.letter then some .hexadecimal
  else if c = Radix.octal.letter then some .octal
  else none

def Radix.number (r : Radix) (ds : List Nat) : Nat :=
  ds.foldl (fun v d => v * r.base + d) 0

/-- The character that the digits of an escape give. -/
def Radix.char (r : Radix) (ds : List Nat) : Except Lapse Char :=
  if ds.length < 2 then .error (.missingDigit r)
  else if (r.number ds).isValidChar then .ok (Char.ofNat (r.number ds))
  else .error (.noCharacter (r.number ds))

/-- The value of the rest of a word's text, or the first lapse in it. -/
def valueFrom : Quoting → List Char → Except Lapse (List Char)
  | .bare, [] => .ok []
  | .single, [] => .error .unclosedQuote
  | .double _, [] => .error .unclosedQuote
  | .bare, c :: cs =>
    if c = '\x27' then valueFrom .single cs
    else if c = '\x22' then valueFrom (.double 0) cs
    else if c = '\\' then
      match cs with
      | [] => .error .trailingBackslash
      | d :: ds => (valueFrom .bare ds).map (d :: ·)
    else (valueFrom .bare cs).map (c :: ·)
  | .single, c :: cs =>
    if c = '\x27' then valueFrom .bare cs else (valueFrom .single cs).map (c :: ·)
  | .double (n + 1), _ :: cs => valueFrom (.double n) cs
  | .double 0, c :: cs =>
    if c = '\x22' then valueFrom .bare cs
    else if c = '\\' then
      match cs with
      | [] => .error .trailingBackslash
      | e :: ds =>
        match Control.ofLetter? e, Radix.ofLetter? e with
        | some k, _ => (valueFrom (.double 0) ds).map (k.char :: ·)
        | none, some r =>
          (r.char (r.digits 2 ds)).bind fun d =>
            (valueFrom (.double (r.digits 2 ds).length) ds).map (d :: ·)
        | none, none => .error (.unsupportedEscape e)
    else (valueFrom (.double 0) cs).map (c :: ·)

/-- The value that a word's text stands for, or the first lapse in it. -/
def unquoteExactly (word : String) : Except Lapse String :=
  (valueFrom .bare word.toList).map String.ofList

/-! ## Agreement -/

section

variable {ε α β : Type} {x : Except ε α} {f : α → β} {b : β}

theorem exists_of_map_ok (h : x.map f = .ok b) : ∃ a, x = .ok a ∧ f a = b := by
  cases x with
  | error e => cases h
  | ok a => exact ⟨a, rfl, Except.ok.inj h⟩

theorem exists_of_bind_ok {g : α → Except ε β} (h : x.bind g = .ok b) :
    ∃ a, x = .ok a ∧ g a = .ok b := by
  cases x with
  | error e => cases h
  | ok a => exact ⟨a, rfl, h⟩

end

section

variable {q : Quoting} {c d : Char} {cs ds v : List Char} {r : Radix}

theorem unquoteFrom_bare {c : Char} (cs : List Char) (h₁ : c ≠ '\x27') (h₂ : c ≠ '\x22')
    (h₃ : c ≠ '\\') : unquoteFrom .bare (c :: cs) = c :: unquoteFrom .bare cs := by
  cases cs <;> exact (if_neg h₁).trans ((if_neg h₂).trans (if_neg h₃))

theorem unquoteFrom_quoted {c : Char} (cs : List Char) (h₁ : c ≠ '\x22') (h₂ : c ≠ '\\') :
    unquoteFrom (.double 0) (c :: cs) = c :: unquoteFrom (.double 0) cs := by
  cases cs <;> exact (if_neg h₁).trans (if_neg h₂)

theorem unquoteFrom_control {k : Control} (h : Control.ofLetter? c = some k) (cs : List Char) :
    unquoteFrom (.double 0) ('\\' :: c :: cs) = k.char :: unquoteFrom (.double 0) cs := by
  rw [unquoteFrom.eq_def]
  simp [h]

theorem Radix.eq_letter_of_ofLetter? (h : Radix.ofLetter? c = some r) : c = r.letter := by
  unfold ofLetter? at h
  split_ifs at h with hx hzero <;> obtain rfl := Option.some.inj h
  · exact hx
  · exact hzero

theorem Radix.exists_of_char (h : r.char (r.digits 2 cs) = .ok d) :
    d = r.charOf (r.digits 2 cs) := by
  unfold char at h
  split_ifs at h
  exact (Except.ok.inj h).symm

theorem unquoteFrom_numeric (r : Radix) (cs : List Char) :
    unquoteFrom (.double 0) ('\\' :: r.letter :: cs) =
      r.charOf (r.digits 2 cs) :: unquoteFrom (.double (r.digits 2 cs).length) cs := by
  rw [unquoteFrom.eq_def]
  cases r <;> simp [Radix.letter, Control.ofLetter?]

/-- **Lapses.** Where there is no lapse, a text is read as without the care for them. -/
theorem unquoteFrom_of_valueFrom (h : valueFrom q cs = .ok v) : unquoteFrom q cs = v := by
  fun_induction valueFrom q cs generalizing v with
  | case1 => exact Except.ok.inj h
  | case2 => cases h
  | case3 => cases h
  | case4 cs ih => cases cs <;> exact ih h
  | case5 cs _ ih => cases cs <;> exact ih h
  | case6 => cases h
  | case7 d ds _ _ ih =>
    obtain ⟨u, hu, rfl⟩ := exists_of_map_ok h
    exact congrArg (d :: ·) (ih hu)
  | case8 c cs h₁ h₂ h₃ ih =>
    obtain ⟨u, hu, rfl⟩ := exists_of_map_ok h
    rw [unquoteFrom_bare cs h₁ h₂ h₃, ih hu]
  | case9 cs ih => exact ih h
  | case10 c cs hc ih =>
    obtain ⟨u, hu, rfl⟩ := exists_of_map_ok h
    rw [unquoteFrom, if_neg hc, ih hu]
  | case11 n c cs ih => exact ih h
  | case12 cs ih => cases cs <;> exact ih h
  | case13 => cases h
  | case14 c cs k hk _ ih =>
    obtain ⟨u, hu, rfl⟩ := exists_of_map_ok h
    rw [unquoteFrom_control hk, ih hu]
  | case15 c cs r hr _ _ ih =>
    obtain ⟨d, hd, hrest⟩ := exists_of_bind_ok h
    obtain ⟨u, hu, rfl⟩ := exists_of_map_ok hrest
    rw [Radix.eq_letter_of_ofLetter? hr, unquoteFrom_numeric, ih hu, Radix.exists_of_char hd]
  | case16 => cases h
  | case17 c cs h₁ h₂ ih =>
    obtain ⟨u, hu, rfl⟩ := exists_of_map_ok h
    rw [unquoteFrom_quoted cs h₁ h₂, ih hu]

theorem unquote_of_unquoteExactly {word value : String} (h : unquoteExactly word = .ok value) :
    unquote word = value := by
  obtain ⟨v, hv, rfl⟩ := exists_of_map_ok h
  exact congrArg String.ofList (unquoteFrom_of_valueFrom hv)

/-! ## Words -/

theorem valueFrom_bare (h₁ : c ≠ '\x27') (h₂ : c ≠ '\x22') (h₃ : c ≠ '\\')
    (h : valueFrom .bare cs = .ok v) : valueFrom .bare (c :: cs) = .ok (c :: v) := by
  have hrest := congrArg (Except.map (c :: ·)) h
  cases cs <;> exact (if_neg h₁).trans ((if_neg h₂).trans ((if_neg h₃).trans hrest))

theorem valueFrom_quoted (h₁ : c ≠ '\x22') (h₂ : c ≠ '\\')
    (h : valueFrom (.double 0) cs = .ok v) : valueFrom (.double 0) (c :: cs) = .ok (c :: v) := by
  have hrest := congrArg (Except.map (c :: ·)) h
  cases cs <;> exact (if_neg h₁).trans ((if_neg h₂).trans hrest)

/-- Quotes begin and end. -/
theorem valueFrom_quote (cs : List Char) :
    valueFrom .bare ('\x27' :: cs) = valueFrom .single cs ∧
      valueFrom .bare ('\x22' :: cs) = valueFrom (.double 0) cs ∧
      valueFrom (.double 0) ('\x22' :: cs) = valueFrom .bare cs := by
  cases cs <;> exact ⟨rfl, rfl, rfl⟩

theorem valueFrom_single {span : List Char} (hspan : '\x27' ∉ span)
    (h : valueFrom .bare cs = .ok v) :
    valueFrom .single (span ++ '\x27' :: cs) = .ok (span ++ v) := by
  induction span with
  | nil => exact h
  | cons c span ih =>
    obtain ⟨hc, hrest⟩ := not_or.1 (mt List.mem_cons.2 hspan)
    rw [List.cons_append, valueFrom, if_neg (Ne.symm hc), ih hrest]
    rfl

theorem Radix.digits_two {high low : Char} (hhigh : (r.digit? high).isSome)
    (hlow : (r.digit? low).isSome) (cs : List Char) :
    r.digits 2 (high :: low :: cs) = [r.digit high, r.digit low] := by
  obtain ⟨a, ha⟩ := Option.isSome_iff_exists.1 hhigh
  obtain ⟨b, hb⟩ := Option.isSome_iff_exists.1 hlow
  simp [digits, digit, ha, hb]

theorem Radix.digit_lt_base (r : Radix) (c : Char) : r.digit c < r.base := by
  unfold digit digit?
  cases h : (hexDigit? c).filter (· < r.base) with
  | none => cases r <;> decide
  | some n => simpa using (Option.filter_eq_some_iff.1 h).2

theorem Radix.char_two (r : Radix) (high low : Char) :
    r.char [r.digit high, r.digit low] = .ok (Piece.numeric r high low).value := by
  have hhigh := r.digit_lt_base high
  have hlow := r.digit_lt_base low
  have hnumber : r.number [r.digit high, r.digit low] = r.digit high * r.base + r.digit low := by
    simp [number]
  have hvalid : (r.number [r.digit high, r.digit low]).isValidChar := by
    left
    rw [hnumber]
    cases r <;> simp only [base] at hhigh hlow ⊢ <;> omega
  have hlength : ¬[r.digit high, r.digit low].length < 2 := Nat.lt_irrefl 2
  unfold char
  rw [if_neg hlength, if_pos hvalid, hnumber]
  rfl

theorem valueFrom_piece {p : Piece} (hp : p.WellFormed) (h : valueFrom (.double 0) cs = .ok v) :
    valueFrom (.double 0) (p.source ++ cs) = .ok (p.value :: v) := by
  cases p with
  | char c => exact valueFrom_quoted hp.1 hp.2 h
  | control k =>
    show valueFrom (.double 0) ('\\' :: k.letter :: cs) = _
    rw [valueFrom.eq_def]
    simp [h, Except.map, Piece.value]
  | numeric r high low =>
    have hskip : valueFrom (.double 2) (high :: low :: cs) = .ok v := h
    have hletter : Control.ofLetter? r.letter = none ∧ Radix.ofLetter? r.letter = some r := by
      cases r <;> decide
    show valueFrom (.double 0) ('\\' :: r.letter :: high :: low :: cs) = _
    rw [valueFrom.eq_def]
    simp [hletter, Radix.digits_two hp.1 hp.2, Radix.char_two, Except.bind, Except.map, hskip]

theorem valueFrom_double {span : List Piece} (hspan : ∀ p ∈ span, p.WellFormed)
    (h : valueFrom .bare cs = .ok v) :
    valueFrom (.double 0) (span.flatMap Piece.source ++ '\x22' :: cs) =
      .ok (span.map Piece.value ++ v) := by
  induction span with
  | nil =>
    exact (valueFrom_quote cs).2.2.trans h
  | cons p span ih =>
    obtain ⟨hp, hrest⟩ := List.forall_mem_cons.1 hspan
    rw [List.flatMap_cons, List.append_assoc]
    exact valueFrom_piece hp (ih hrest)

theorem valueFrom_segment {x : Segment} (hx : x.WellFormed) (h : valueFrom .bare cs = .ok v) :
    valueFrom .bare (x.source ++ cs) = .ok (x.value ++ v) := by
  cases x with
  | bare c => exact valueFrom_bare hx.1 hx.2.1 hx.2.2 h
  | escaped c =>
    exact congrArg (Except.map (c :: ·)) h
  | single span =>
    show valueFrom .bare ('\x27' :: span ++ ['\x27'] ++ cs) = _
    rw [List.append_assoc, List.cons_append, (valueFrom_quote _).1]
    exact valueFrom_single hx h
  | double span =>
    show valueFrom .bare ('\x22' :: span.flatMap Piece.source ++ ['\x22'] ++ cs) = _
    rw [List.append_assoc, List.cons_append, (valueFrom_quote _).2.1]
    exact valueFrom_double hx h

/-- **Segments.** The sources of well-formed segments are read as the values of these, and there is
no lapse in them. -/
theorem valueFrom_segments {xs : List Segment} (h : ∀ x ∈ xs, x.WellFormed) :
    valueFrom .bare (xs.flatMap Segment.source) = .ok (xs.flatMap Segment.value) := by
  induction xs with
  | nil => rfl
  | cons x xs ih =>
    obtain ⟨hx, hxs⟩ := List.forall_mem_cons.1 h
    rw [List.flatMap_cons, List.flatMap_cons]
    exact valueFrom_segment hx (ih hxs)

/-- The text of a word is read as the values of its segments, and there is no lapse in it. -/
theorem unquoteExactly_text {w : Word} (h : ∀ x ∈ w.segments, x.WellFormed) :
    unquoteExactly w.text = .ok (String.ofList w.value) := by
  unfold unquoteExactly Word.text
  rw [String.toList_ofList, Word.source, valueFrom_segments h]
  rfl

theorem unquote_text {w : Word} (h : ∀ x ∈ w.segments, x.WellFormed) :
    unquote w.text = String.ofList w.value :=
  unquote_of_unquoteExactly (unquoteExactly_text h)

end

end Runbook.Shell
