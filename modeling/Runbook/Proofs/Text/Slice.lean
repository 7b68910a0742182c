/-!
# Cutting texts at byte offsets

A text may be cut at an offset that counts the bytes of its UTF-8 form, but not behind its end and
not inside a character: `cut` succeeds exactly between two characters (`cut_ok_iff`), and so does
`slice` at both ends. A search for a character gives an offset where a cut succeeds.
-/

namespace Runbook.Text

def byteLength : List Char → Nat
  | [] => 0
  | c :: cs => c.utf8Size + byteLength cs

/-- An offset behind the end of a text or inside one of its characters. -/
structure BadOffset where
  offset : Nat
  deriving DecidableEq, Repr

/-- The text before a byte offset and the text behind it. -/
def cut (n : Nat) : List Char → Except BadOffset (List Char × List Char)
  | [] => if n = 0 then .ok ([], []) else .error ⟨n⟩
  | c :: cs =>
    if n = 0 then .ok ([], c :: cs)
    else if c.utf8Size ≤ n then do
      let (before, behind) ← cut (n - c.utf8Size) cs
      return (c :: before, behind)
    else .error ⟨n⟩

/-- The text from one byte offset to another. -/
def slice (first last : Nat) (cs : List Char) : Except BadOffset (List Char) := do
  let (before, _) ← cut last cs
  let (_, text) ← cut first before
  return text

/-- The byte offset of the first character of a kind. -/
def find? (p : Char → Bool) : List Char → Option Nat
  | [] => none
  | c :: cs => if p c then some 0 else (find? p cs).map (c.utf8Size + ·)

/-- The byte offset of the last character of a kind. -/
def findLast? (p : Char → Bool) : List Char → Option Nat
  | [] => none
  | c :: cs => (findLast? p cs).map (c.utf8Size + ·) <|> if p c then some 0 else none

variable {cs before behind : List Char} {n : Nat} {p : Char → Bool}

@[simp] theorem byteLength_nil : byteLength [] = 0 := rfl

@[simp] theorem byteLength_cons (c : Char) (cs : List Char) :
    byteLength (c :: cs) = c.utf8Size + byteLength cs := rfl

@[simp] theorem byteLength_append (xs ys : List Char) :
    byteLength (xs ++ ys) = byteLength xs + byteLength ys := by
  induction xs with
  | nil => simp
  | cons x xs ih => simp [ih, Nat.add_assoc]

theorem byteLength_eq_utf8ByteSize (s : String) : byteLength s.toList = s.utf8ByteSize := by
  obtain ⟨cs, rfl⟩ : ∃ cs, s = String.ofList cs := ⟨s.toList, String.ofList_toList.symm⟩
  rw [String.toList_ofList]
  induction cs with
  | nil => rfl
  | cons c cs ih =>
    rw [← List.singleton_append, String.ofList_append, String.utf8ByteSize_append,
      byteLength_append, ih]
    simp

/-- Between two characters a text falls into what stands before and what stands behind. -/
theorem cut_append (before behind : List Char) :
    cut (byteLength before) (before ++ behind) = .ok (before, behind) := by
  induction before with
  | nil =>
    cases behind <;> rfl
  | cons c cs ih =>
    have hsize := c.utf8Size_pos
    rw [List.cons_append, cut, byteLength_cons, if_neg (by omega),
      if_pos (Nat.le_add_right _ _), Nat.add_sub_cancel_left, ih]
    rfl

/-- Behind a character that takes one byte a text can be cut, too. -/
theorem cut_succ {c : Char} (hc : c.utf8Size = 1) (before behind : List Char) :
    cut (byteLength before + 1) (before ++ c :: behind) = .ok (before ++ [c], behind) := by
  have hcut := cut_append (before ++ [c]) behind
  rw [← List.append_cons, byteLength_append, byteLength_cons, hc] at hcut
  exact hcut

/-- **Cuts.** A text can be cut at an offset exactly when this is where some first part of it
ends. -/
theorem cut_ok_iff : cut n cs = .ok (before, behind) ↔
    cs = before ++ behind ∧ n = byteLength before := by
  constructor
  · intro h
    induction cs generalizing n before with
    | nil =>
      rw [cut] at h
      split at h
      · next hn =>
        obtain ⟨rfl, rfl⟩ := Prod.mk.inj (Except.ok.inj h)
        exact ⟨rfl, hn⟩
      · cases h
    | cons c cs ih =>
      rw [cut] at h
      split at h
      · next hn =>
        obtain ⟨rfl, rfl⟩ := Prod.mk.inj (Except.ok.inj h)
        exact ⟨rfl, hn⟩
      split at h
      · next hle =>
        cases hrest : cut (n - c.utf8Size) cs with
        | error e =>
          rw [hrest] at h
          cases h
        | ok parts =>
          rw [hrest] at h
          obtain ⟨rfl, rfl⟩ := Prod.mk.inj (Except.ok.inj h)
          obtain ⟨rfl, hlength⟩ := ih hrest
          exact ⟨rfl, by rw [byteLength_cons]; omega⟩
      · cases h
  · rintro ⟨rfl, rfl⟩
    exact cut_append before behind

theorem slice_append (before text behind : List Char) :
    slice (byteLength before) (byteLength (before ++ text)) (before ++ text ++ behind) =
      .ok text := by
  unfold slice
  rw [cut_append]
  show (do let (_, text) ← cut (byteLength before) (before ++ text); return text) = _
  rw [cut_append]
  rfl

theorem slice_between {c d : Char} (hc : c.utf8Size = 1) (hd : d.utf8Size = 1)
    (text : List Char) :
    slice 1 (byteLength (c :: (text ++ [d])) - 1) (c :: (text ++ [d])) = .ok text := by
  have hlength : byteLength (c :: (text ++ [d])) = byteLength ([c] ++ text) + 1 := by
    simp [hd, Nat.add_assoc]
  have hslice := slice_append [c] text [d]
  rw [byteLength_cons, hc, byteLength_nil] at hslice
  rw [hlength, Nat.add_sub_cancel]
  exact hslice

/-! ## Searches -/

theorem find?_eq_none (h : find? p cs = none) : ∀ c ∈ cs, p c = false := by
  induction cs with
  | nil => exact fun c hc => absurd hc List.not_mem_nil
  | cons c cs ih =>
    rw [find?] at h
    split at h
    · cases h
    · next hc => exact List.forall_mem_cons.2 ⟨by simpa using hc, ih (Option.map_eq_none_iff.1 h)⟩

/-- What is found stands behind characters of other kinds. -/
theorem exists_of_find? (h : find? p cs = some n) :
    ∃ before c behind, cs = before ++ c :: behind ∧ n = byteLength before ∧
      (∀ b ∈ before, p b = false) ∧ p c = true := by
  induction cs generalizing n with
  | nil => cases h
  | cons c cs ih =>
    rw [find?] at h
    split at h
    · next hc =>
      obtain rfl := Option.some.inj h
      exact ⟨[], c, cs, rfl, rfl, fun b hb => absurd hb List.not_mem_nil, hc⟩
    · next hc =>
      obtain ⟨k, hk, rfl⟩ := Option.map_eq_some_iff.1 h
      obtain ⟨before, d, behind, rfl, rfl, hbefore, hd⟩ := ih hk
      exact ⟨c :: before, d, behind, rfl, rfl,
        List.forall_mem_cons.2 ⟨by simpa using hc, hbefore⟩, hd⟩

theorem find?_getD (q : Char → Bool) (cs : List Char) :
    (find? (!q ·) cs).getD (byteLength cs) = byteLength (cs.takeWhile q) := by
  induction cs with
  | nil => rfl
  | cons c cs ih =>
    by_cases hc : q c = true
    · rw [find?, if_neg (by simp [hc]), List.takeWhile_cons_of_pos hc, byteLength_cons,
        byteLength_cons, ← ih]
      cases find? (!q ·) cs <;> rfl
    · rw [find?, if_pos (by simp [hc]), List.takeWhile_cons_of_neg hc]
      rfl

theorem findLast?_eq_none (h : findLast? p cs = none) : ∀ c ∈ cs, p c = false := by
  induction cs with
  | nil => exact fun c hc => absurd hc List.not_mem_nil
  | cons c cs ih =>
    rw [findLast?] at h
    cases hrest : findLast? p cs with
    | some k => simp [hrest] at h
    | none =>
      refine List.forall_mem_cons.2 ⟨?_, ih hrest⟩
      simpa [hrest] using h

theorem exists_of_findLast? (h : findLast? p cs = some n) :
    ∃ before c behind, cs = before ++ c :: behind ∧ n = byteLength before ∧ p c = true ∧
      ∀ b ∈ behind, p b = false := by
  induction cs generalizing n with
  | nil => cases h
  | cons c cs ih =>
    rw [findLast?] at h
    cases hrest : findLast? p cs with
    | some k =>
      obtain ⟨before, d, behind, rfl, rfl, hd, hbehind⟩ := ih hrest
      rw [hrest] at h
      obtain rfl := Option.some.inj h
      exact ⟨c :: before, d, behind, rfl, rfl, hd, hbehind⟩
    | none =>
      rw [hrest] at h
      by_cases hc : p c = true
      · obtain rfl : 0 = n := by simpa [hc] using h
        exact ⟨[], c, cs, rfl, rfl, hc, findLast?_eq_none hrest⟩
      · simp [hc] at h

end Runbook.Text
