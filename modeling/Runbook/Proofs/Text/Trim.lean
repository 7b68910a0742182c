import Runbook.Text.Blank

/-!
# Trimmed texts

What `trim` leaves starts and ends in characters that are not blank, and a text that does so is
left as it is. Blanks before a text do not change what trimming leaves of it. A text that is cut at
the first of some character falls into what stands before it and the rest.
-/

namespace Runbook.Text

theorem ne_of_isBlank {c d : Char} (hc : isBlank c = true) (hd : isBlank d = false) : c ≠ d := by
  rintro rfl
  cases hc.symm.trans hd

theorem trimStart_eq_self {cs : List Char} (h : ∀ c, cs.head? = some c → isBlank c = false) :
    trimStart cs = cs := by
  unfold trimStart
  cases cs with
  | nil => rfl
  | cons c cs => rw [List.dropWhile_cons_of_neg (by simp [h c rfl])]

theorem trimEnd_eq_self {cs : List Char} (h : ∀ c, cs.getLast? = some c → isBlank c = false) :
    trimEnd cs = cs := by
  have hrev : trimStart cs.reverse = cs.reverse := by
    apply trimStart_eq_self
    intro c hc
    exact h c (by rwa [List.getLast?_eq_head?_reverse])
  unfold trimStart at hrev
  unfold trimEnd
  rw [hrev, List.reverse_reverse]

theorem trim_eq_self {cs : List Char} (hhead : ∀ c, cs.head? = some c → isBlank c = false)
    (hlast : ∀ c, cs.getLast? = some c → isBlank c = false) : trim cs = cs := by
  unfold trim
  rw [trimStart_eq_self hhead, trimEnd_eq_self hlast]

theorem trimStart_append_of_blank {bs : List Char} (h : ∀ c ∈ bs, isBlank c = true)
    (cs : List Char) : trimStart (bs ++ cs) = trimStart cs := by
  unfold trimStart
  rw [List.dropWhile_append_of_pos h]

theorem trim_append_of_blank {bs : List Char} (h : ∀ c ∈ bs, isBlank c = true) (cs : List Char) :
    trim (bs ++ cs) = trim cs := by
  unfold trim
  rw [trimStart_append_of_blank h]

theorem trimEnd_append_of_blank {bs : List Char} (h : ∀ c ∈ bs, isBlank c = true)
    (cs : List Char) : trimEnd (cs ++ bs) = trimEnd cs := by
  unfold trimEnd
  rw [List.reverse_append, List.dropWhile_append_of_pos (by simpa using h)]

theorem trim_append_blank {bs : List Char} (h : ∀ c ∈ bs, isBlank c = true) (cs : List Char) :
    trim (cs ++ bs) = trim cs := by
  have hnil : bs.dropWhile isBlank = [] := by
    have hdrop := trimStart_append_of_blank h []
    rwa [List.append_nil] at hdrop
  unfold trim trimStart
  rw [List.dropWhile_append]
  by_cases hempty : (cs.dropWhile isBlank).isEmpty = true
  · rw [if_pos hempty, List.isEmpty_iff.1 hempty, hnil]
  · rw [if_neg hempty, trimEnd_append_of_blank h]

theorem trimEnd_isPrefix_self (cs : List Char) : trimEnd cs <+: cs := by
  unfold trimEnd
  rw [← List.reverse_suffix, List.reverse_reverse]
  exact List.dropWhile_suffix _

theorem trim_isInfix (cs : List Char) : trim cs <:+: cs :=
  (trimEnd_isPrefix_self (trimStart cs)).isInfix.trans (List.dropWhile_suffix isBlank).isInfix

theorem mem_of_mem_trim {cs : List Char} {c : Char} (h : c ∈ trim cs) : c ∈ cs :=
  (trim_isInfix cs).subset h

/-- Blanks are cut off behind the last character that is none. -/
theorem trimEnd_append_cons {c : Char} (hc : isBlank c = false) (cs ds : List Char) :
    trimEnd (cs ++ c :: ds) = cs ++ c :: trimEnd ds := by
  have hlast : (c :: cs.reverse).dropWhile isBlank = c :: cs.reverse :=
    List.dropWhile_cons_of_neg (by simp [hc])
  unfold trimEnd
  rw [List.reverse_append, List.reverse_cons, List.append_assoc, List.singleton_append,
    List.dropWhile_append, hlast]
  by_cases hempty : (ds.reverse.dropWhile isBlank).isEmpty = true
  · rw [if_pos hempty, List.isEmpty_iff.1 hempty]
    simp
  · rw [if_neg hempty]
    simp

theorem trimEnd_cons {c : Char} (hc : isBlank c = false) (cs : List Char) :
    trimEnd (c :: cs) = c :: trimEnd cs :=
  trimEnd_append_cons hc [] cs

theorem head?_trimEnd {cs : List Char} {c : Char} (h : cs.head? = some c)
    (hc : isBlank c = false) : (trimEnd cs).head? = some c := by
  cases cs with
  | nil => cases h
  | cons d cs =>
    obtain rfl := Option.some.inj h
    rw [trimEnd_cons hc, List.head?_cons]

theorem head?_trim_not_blank {cs : List Char} {c : Char} (h : (trim cs).head? = some c) :
    isBlank c = false := by
  have hstart : (trimStart cs).head? = some c := by
    obtain ⟨t, ht⟩ := trimEnd_isPrefix_self (trimStart cs)
    rw [← ht, List.head?_append]
    unfold trim at h
    rw [h]
    rfl
  exact head?_trimStart_not_blank hstart

theorem getLast?_trim_not_blank {cs : List Char} {c : Char} (h : (trim cs).getLast? = some c) :
    isBlank c = false := by
  unfold trim trimEnd at h
  rw [List.getLast?_reverse] at h
  exact head?_trimStart_not_blank h

@[simp] theorem trim_trim (cs : List Char) : trim (trim cs) = trim cs :=
  trim_eq_self (fun _ => head?_trim_not_blank) (fun _ => getLast?_trim_not_blank)

@[simp] theorem toList_trimmed (s : String) : (trimmed s).toList = trim s.toList := by
  unfold trimmed
  rw [String.toList_ofList]

@[simp] theorem trimmed_trimmed (s : String) : trimmed (trimmed s) = trimmed s := by
  apply String.toList_injective
  simp

theorem head?_trim (cs : List Char) : (trim cs).head? = (trimStart cs).head? := by
  cases hhead : (trimStart cs).head? with
  | none =>
    unfold trim
    rw [List.head?_eq_none_iff.1 hhead]
    rfl
  | some c => exact head?_trimEnd hhead (head?_trimStart_not_blank hhead)

@[simp] theorem trimStart_trim (cs : List Char) : trimStart (trim cs) = trim cs :=
  trimStart_eq_self fun _ => head?_trim_not_blank

/-! ## What is cut off -/

theorem exists_trimStart (cs : List Char) :
    ∃ bs, (∀ c ∈ bs, isBlank c = true) ∧ cs = bs ++ trimStart cs :=
  ⟨cs.takeWhile isBlank, fun _ hc => List.all_eq_true.1 List.all_takeWhile _ hc,
    List.takeWhile_append_dropWhile.symm⟩

theorem exists_trimEnd (cs : List Char) :
    ∃ bs, (∀ c ∈ bs, isBlank c = true) ∧ cs = trimEnd cs ++ bs := by
  obtain ⟨bs, hbs, hcs⟩ := exists_trimStart cs.reverse
  refine ⟨bs.reverse, by simpa using hbs, ?_⟩
  rw [← List.reverse_inj, List.reverse_append, List.reverse_reverse]
  unfold trimEnd
  rw [List.reverse_reverse]
  exact hcs

theorem exists_trim (cs : List Char) :
    ∃ bs bs', (∀ c ∈ bs, isBlank c = true) ∧ (∀ c ∈ bs', isBlank c = true) ∧
      cs = bs ++ trim cs ++ bs' := by
  obtain ⟨bs, hbs, hstart⟩ := exists_trimStart cs
  obtain ⟨bs', hbs', hend⟩ := exists_trimEnd (trimStart cs)
  refine ⟨bs, bs', hbs, hbs', ?_⟩
  unfold trim
  rw [List.append_assoc, ← hend, ← hstart]

@[simp] theorem trim_trimEnd (cs : List Char) : trim (trimEnd cs) = trim cs := by
  obtain ⟨bs, hbs, hcs⟩ := exists_trimEnd cs
  exact (trim_append_blank hbs (trimEnd cs)).symm.trans (congrArg trim hcs.symm)

/-! ## Up to a character -/

section UpTo

variable {d : Char} {before : List Char}

theorem all_ne_of_not_mem (h : d ∉ before) : ∀ c ∈ before, decide (c ≠ d) = true := by
  intro c hc
  rw [decide_eq_true_eq]
  rintro rfl
  exact h hc

theorem takeWhile_ne_append (h : d ∉ before) (behind : List Char) :
    (before ++ d :: behind).takeWhile (· ≠ d) = before := by
  rw [List.takeWhile_append_of_pos (all_ne_of_not_mem h), List.takeWhile_cons_of_neg (by simp),
    List.append_nil]

theorem dropWhile_ne_append (h : d ∉ before) (behind : List Char) :
    (before ++ d :: behind).dropWhile (· ≠ d) = d :: behind := by
  rw [List.dropWhile_append_of_pos (all_ne_of_not_mem h), List.dropWhile_cons_of_neg (by simp)]

end UpTo

end Runbook.Text
