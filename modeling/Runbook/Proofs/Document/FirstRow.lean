import Runbook.Proofs.Document.Recognition
import Runbook.Proofs.Pipeline.Repetition
import Runbook.Proofs.Shell.FirstWords

/-!
# The first row of a command

A command that goes over several lines keeps its first line as its first row, unless this ends in a
backslash (`firstRow_of_completes`). The text of its only statement begins with the same row, but for
blanks, or with a part of it that a `;` stood behind (`firstRow_of_statement`).
-/

namespace Runbook

namespace Text

variable {xs cs : List Char}

/-- What stands before the first line feed. -/
def firstRow (cs : List Char) : List Char :=
  cs.takeWhile (· ≠ '\n')

theorem firstRow_append (h : '\n' ∉ xs) (ys : List Char) :
    firstRow (xs ++ ys) = xs ++ firstRow ys :=
  List.takeWhile_append_of_pos (all_ne_of_not_mem h)

theorem firstRow_eq_self (h : '\n' ∉ xs) : firstRow xs = xs := by
  have happend := firstRow_append h []
  rwa [List.append_nil, show firstRow [] = [] from rfl, List.append_nil] at happend

theorem firstRow_append_of_mem (h : '\n' ∈ xs) (ys : List Char) :
    firstRow (xs ++ ys) = firstRow xs := by
  obtain ⟨before, behind, rfl, hbefore⟩ := List.eq_append_cons_of_mem h
  have hrow := fun zs => takeWhile_ne_append hbefore zs
  rw [List.append_assoc, List.cons_append]
  exact (hrow _).trans (hrow _).symm

theorem trim_firstRow_append_cons {d : Char} (hxs : '\n' ∉ xs) (hd : isBlank d = false)
    (hhead : ∀ c, xs.head? = some c → isBlank c = false) (ys : List Char) :
    trim (firstRow (xs ++ d :: ys)) = xs ++ d :: trimEnd (firstRow ys) := by
  have hfeed : d ≠ '\n' := by
    rintro rfl
    revert hd
    decide
  have hrow : firstRow (d :: ys) = d :: firstRow ys := List.takeWhile_cons_of_pos (by simpa)
  have hstart : ∀ c, (xs ++ d :: firstRow ys).head? = some c → isBlank c = false := by
    cases xs with
    | nil =>
      rintro c ⟨⟩
      exact hd
    | cons x xs =>
      rintro c ⟨⟩
      exact hhead x rfl
  unfold trim
  rw [firstRow_append hxs, hrow, trimStart_eq_self hstart, trimEnd_append_cons hd]

theorem trim_firstRow_trim (hhead : ∀ c, cs.head? = some c → isBlank c = false) :
    trim (firstRow (trim cs)) = trim (firstRow cs) := by
  obtain ⟨bs, hbs, hcs⟩ := exists_trimEnd cs
  have htrim : trim cs = trimEnd cs := by
    unfold trim
    rw [trimStart_eq_self hhead]
  rw [htrim]
  by_cases hfeed : '\n' ∈ trimEnd cs
  · conv_rhs => rw [hcs, firstRow_append_of_mem hfeed]
  · have hrow : ∀ c ∈ firstRow bs, isBlank c = true := fun c hc =>
      hbs c ((List.takeWhile_prefix _).subset hc)
    conv_rhs => rw [hcs, firstRow_append hfeed, trim_append_blank hrow]
    rw [firstRow_eq_self hfeed]

/-- The first physical line of a text is its first row, but for blanks. -/
theorem exists_head?_physicalLines (text : String) : ∃ line,
    (physicalLines text).head? = some line ∧ trim line.toList = trim (firstRow text.toList) := by
  obtain ⟨xs, ys, hxs, htext, -⟩ := exists_firstLine text.toList
  have hrow : firstRow text.toList = xs := by
    have hwhole : firstRow (text.toList ++ ['\n']) = xs := by
      rw [htext]
      exact takeWhile_ne_append hxs ys
    by_cases hfeed : '\n' ∈ text.toList
    · rwa [firstRow_append_of_mem hfeed] at hwhole
    · rwa [firstRow_append hfeed, show firstRow ['\n'] = [] from rfl, List.append_nil,
        ← firstRow_eq_self hfeed] at hwhole
  refine ⟨String.ofList (closeLine xs.reverse), ?_, ?_⟩
  · unfold physicalLines lines
    rw [String.toList_append, show "\n".toList = ['\n'] from rfl, htext, linesFrom_row hxs,
      List.append_nil]
    rfl
  · rw [String.toList_ofList, Document.trim_closeLine, List.reverse_reverse, hrow]

end Text

namespace Document

open Text (trim trimEnd trimmed isBlank firstRow)
open Shell (tokenize joinLine)

variable {first text whole line : String} {more : List String} {xs : List Char}
  {statements : List Shell.Statement}

/-! ## Lines that are joined -/

/-- The command goes on behind the backslash at the end of its first line. -/
def Continues (first : String) (more : List String) : Prop :=
  more ≠ [] ∧ (trimmed first).toList.getLast? = some '\\'

instance (first : String) (more : List String) : Decidable (Continues first more) :=
  inferInstanceAs (Decidable (_ ∧ _))

/-- Lines that are joined to a text leave its rows as they are. -/
theorem exists_row_of_completes (h : Completes whole text more)
    (htext : ∃ ys, text.toList = xs ++ '\n' :: ys) : ∃ ys, whole.toList = xs ++ '\n' :: ys := by
  induction more generalizing text with
  | nil =>
    obtain rfl : text = whole := h
    exact htext
  | cons l more ih =>
    obtain ⟨ys, hys⟩ := htext
    refine ih h.2 ?_
    unfold joinLine
    dsimp only
    split
    · next hback =>
      have hne : ys ≠ [] := by
        rintro rfl
        rw [hys, List.getLast?_concat] at hback
        cases hback
      rw [hys, String.toList_append, String.toList_ofList, List.dropLast_append_of_ne_nil (by simp),
        List.dropLast_cons_of_ne_nil hne]
      exact ⟨_, List.append_assoc _ _ _⟩
    · rw [String.toList_append, String.toList_append, hys, List.append_assoc, List.append_assoc]
      exact ⟨_, rfl⟩

/-- **First lines.** The first line of a command is its first row, unless the command goes on behind
a backslash there. -/
theorem firstRow_of_completes (hfeed : '\n' ∉ first.toList)
    (h : Completes whole (Shell.firstLine first) more) (hcontinues : ¬Continues first more) :
    firstRow whole.toList = (trimmed first).toList := by
  have hline : '\n' ∉ (trimmed first).toList := fun hmem =>
    hfeed (Text.mem_of_mem_trim (by rwa [Text.toList_trimmed] at hmem))
  cases more with
  | nil =>
    obtain rfl : trimmed first = whole := h
    exact Text.firstRow_eq_self hline
  | cons l more =>
    have hback : (Shell.firstLine first).toList.getLast? ≠ some '\\' := fun hback =>
      hcontinues ⟨List.cons_ne_nil _ _, hback⟩
    have hjoin : (joinLine (Shell.firstLine first) l).toList =
        (trimmed first).toList ++ '\n' :: trim l.toList := by
      unfold joinLine
      dsimp only
      rw [if_neg hback, String.toList_append, String.toList_append, List.append_assoc,
        Text.toList_trimmed l]
      rfl
    obtain ⟨ys, hys⟩ := exists_row_of_completes h.2 ⟨_, hjoin⟩
    rw [hys]
    exact Text.takeWhile_ne_append hline ys

/-- The first row of a text, as a line. -/
def headRow (text : String) : String :=
  String.ofList (firstRow text.toList)

@[simp] theorem toList_headRow (text : String) :
    (headRow text).toList = firstRow text.toList :=
  String.toList_ofList

/-! ## How a command begins -/

/-- The text does not begin with a blank, and with a `#` only where it is a single comment. -/
structure Begins (text : String) : Prop where
  blank : ∀ c, text.toList.head? = some c → isBlank c = false
  comment : text.toList.head? = some '#' → '\n' ∉ text.toList

theorem Begins.ne_comment (h : Begins text) (hscan : tokenize text ≠ .complete []) :
    text.toList.head? ≠ some '#' := by
  intro hhead
  obtain ⟨cs, hcs⟩ := List.head?_eq_some_iff.1 hhead
  have hfeed := h.comment hhead
  rw [hcs] at hfeed
  apply hscan
  unfold tokenize
  rw [hcs, Shell.scan_comment fun hmem => hfeed (List.mem_cons_of_mem _ hmem)]

theorem begins_trimmed (hline : '\n' ∉ line.toList) : Begins (trimmed line) where
  blank := by
    rw [Text.toList_trimmed]
    exact fun c hc => Text.head?_trim_not_blank hc
  comment := by
    rw [Text.toList_trimmed]
    exact fun _ hmem => hline (Text.mem_of_mem_trim hmem)

/-- Behind a backslash that is all of the text the next line begins it. -/
theorem Begins.joinLine (h : Begins text) (hscan : tokenize text = .unfinished)
    (hline : '\n' ∉ line.toList) : Begins (joinLine text line) := by
  have hne := h.ne_comment (by rw [hscan]; nofun)
  cases htext : text.toList with
  | nil =>
    unfold tokenize at hscan
    rw [htext] at hscan
    cases hscan
  | cons c cs =>
    have hc : isBlank c = false ∧ c ≠ '#' :=
      ⟨h.blank c (by rw [htext]; rfl), fun hhash => hne (by rw [htext, hhash]; rfl)⟩
    have hkeeps : ∀ ys, (Shell.joinLine text line).toList = c :: ys →
        Begins (Shell.joinLine text line) := by
      intro ys hys
      refine ⟨?_, ?_⟩ <;> rw [hys]
      · rintro d ⟨⟩
        exact hc.1
      · intro hhash
        exact absurd (Option.some.inj hhash) hc.2
    by_cases hback : text.toList.getLast? = some '\\'
    · have hjoin : Shell.joinLine text line =
          String.ofList text.toList.dropLast ++ trimmed line := if_pos hback
      cases cs with
      | nil =>
        rw [htext] at hjoin
        rw [hjoin]
        simpa using begins_trimmed hline
      | cons d cs =>
        refine hkeeps ((d :: cs).dropLast ++ trim line.toList) ?_
        rw [hjoin, htext]
        simp
    · have hjoin : Shell.joinLine text line = text ++ "\n" ++ trimmed line := if_neg hback
      exact hkeeps _ (by rw [hjoin, String.toList_append, String.toList_append, htext]; rfl)

theorem begins_of_completes (h : Completes whole text more) (htext : Begins text)
    (hmore : ∀ l ∈ more, '\n' ∉ l.toList) : Begins whole := by
  induction more generalizing text with
  | nil =>
    obtain rfl : text = whole := h
    exact htext
  | cons l more ih =>
    obtain ⟨hl, hmore⟩ := List.forall_mem_cons.1 hmore
    exact ih h.2 (htext.joinLine h.1 hl) hmore

/-! ## The only statement -/

/-- **First rows.** The text of the only statement of a command has the same first row as the
command, or one that a `;` stands behind there. -/
theorem firstRow_of_statement {s : Shell.Statement} (h : tokenize text = .complete [s])
    (hbegins : Begins text) :
    trim (firstRow s.text.toList) = trim (firstRow text.toList) ∨
      ∃ bs behind, (∀ c ∈ bs, isBlank c = true) ∧
        trim (firstRow text.toList) =
          trim (firstRow s.text.toList) ++ (bs ++ ';' :: behind) := by
  obtain ⟨r, -, -, hwords, hs, htext⟩ := Shell.exists_row_of_tokenize h hbegins.blank
    (hbegins.ne_comment (by rw [h]; nofun))
  have hhead : ∀ c, r.source.head? = some c → isBlank c = false := by
    intro c hc
    apply hbegins.blank
    rcases htext with htext | ⟨d, behind, -, htext⟩
    · rw [htext, hc]
    · rw [htext, List.head?_append, hc]
      rfl
  have hsame : firstRow text.toList = firstRow r.source →
      trim (firstRow s.text.toList) = trim (firstRow text.toList) := by
    intro hrow
    rw [hrow, hs, String.toList_ofList, Text.trim_firstRow_trim hhead]
  rcases htext with htext | ⟨d, behind, hd, htext⟩
  · exact .inl (hsame (by rw [htext]))
  · by_cases hfeed : '\n' ∈ r.source
    · exact .inl (hsame (by rw [htext, Text.firstRow_append_of_mem hfeed]))
    · rcases hd with rfl | rfl
      · refine .inl (hsame ?_)
        rw [htext, Text.firstRow_append hfeed, Text.firstRow_eq_self hfeed]
        exact List.append_nil _
      · right
        obtain ⟨bs, hbs, hsource⟩ := Text.exists_trimEnd r.source
        have hrow : trim (firstRow s.text.toList) = trimEnd r.source := by
          rw [hs, String.toList_ofList, Text.trim_firstRow_trim hhead,
            Text.firstRow_eq_self hfeed]
          unfold trim
          rw [Text.trimStart_eq_self hhead]
        refine ⟨bs, trimEnd (firstRow behind), hbs, ?_⟩
        rw [hrow, htext, Text.trim_firstRow_append_cons hfeed (by decide) hhead]
        conv_lhs => rw [hsource]
        rw [List.append_assoc]

end Document

end Runbook
