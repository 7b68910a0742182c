import Mathlib.Data.List.TakeWhile
import Runbook.Proofs.Shell.Outcomes
import Runbook.Proofs.Text.Slice
import Runbook.Proofs.Text.Trim

/-!
# The scan by byte offsets

A scan may keep the byte offset at which the current statement starts, and cut the text of a
statement out of the input at its end (`Cursor.step`). Each of these cuts succeeds and gives the
text that was gathered character by character, so both scans agree on every text
(`tokenizeByOffset_eq`). The offset of a fault lies between two characters as well
(`exists_of_malformed`), and so does every cut for its marker (`markerByOffset_eq`).
-/

namespace Runbook.Shell

open Text (BadOffset byteLength)

/-! ## Cutting statements out -/

/-- Why a scan by offsets stops. -/
inductive Stop where
  | malformed (m : Malformed)
  | offset (e : BadOffset)

/-- A scan, and the byte offset at which the current statement starts. -/
structure Cursor where
  state : State
  start : Nat

namespace Cursor

def zero : Cursor := ⟨.start, 0⟩

/-- The statements when the one that starts at `start` ends where the scan stands. -/
def endStatement (input : List Char) (start : Nat) (s : State) :
    Except BadOffset (List Statement) :=
  if s.words.isEmpty then .ok s.statements
  else do
    let text ← Text.slice start s.offset input
    return ⟨String.ofList (Text.trim text), s.words.reverse⟩ :: s.statements

/-- The statement ends at the separator `c`, and a new one starts behind it. -/
def separate (input : List Char) (start : Nat) (s : State) (c : Char) : Except Stop Cursor :=
  if c = ';' ∧ s.words.isEmpty then .error (.malformed ⟨s.offset, .emptyStatement⟩)
  else
    match endStatement input start s with
    | .error e => .error (.offset e)
    | .ok statements =>
      let behind := s.offset + c.utf8Size
      .ok ⟨{ s with mode := .bare, offset := behind, text := [], words := [], statements }, behind⟩

def step (input : List Char) (x : Cursor) (c : Char) : Except Stop Cursor :=
  match x.state.ending? c with
  | some s => separate input x.start s c
  | none =>
    match x.state.step c with
    | .ok t => .ok ⟨t, x.start⟩
    | .error m => .error (.malformed m)

def run (input : List Char) (x : Cursor) : List Char → Except Stop Cursor
  | [] => .ok x
  | c :: cs =>
    match x.step input c with
    | .ok y => y.run input cs
    | .error e => .error e

/-- What the text read amounts to if it ends here. -/
def finish (input : List Char) (x : Cursor) : Except BadOffset Outcome :=
  match x.state.lastWord? with
  | some s => do return .complete (← endStatement input x.start s).reverse
  | none => .ok .unfinished

end Cursor

/-- What a text amounts to as a command, with the texts of its statements cut out of it. -/
def tokenizeByOffset (text : String) : Except BadOffset Outcome :=
  match Cursor.zero.run text.toList text.toList with
  | .ok x => x.finish text.toList
  | .error (.malformed m) => .ok (.malformed m)
  | .error (.offset e) => .error e

namespace Cursor

variable {x y : Cursor} {s t u : State} {c : Char} {cs read rest : List Char} {m : Malformed}

/-- The scan has read a text, which ends in the current statement, and its offsets are those of
both. -/
structure Stands (x : Cursor) (read : List Char) : Prop where
  offset : x.state.offset = byteLength read
  start : ∃ before, read = before ++ x.state.text.reverse ∧ x.start = byteLength before

theorem stands_zero : zero.Stands [] :=
  ⟨rfl, [], rfl, rfl⟩

/-- Where the scan stands, the statement that ends there is cut out as it was gathered. -/
theorem endStatement_eq (hx : x.Stands read) (rest : List Char) (htext : u.text = x.state.text)
    (hoffset : u.offset = x.state.offset) :
    endStatement (read ++ rest) x.start u = .ok u.endStatement.statements := by
  obtain ⟨before, hread, hstart⟩ := hx.start
  have hslice : Text.slice x.start u.offset (read ++ rest) = .ok u.text.reverse := by
    rw [hstart, hoffset, hx.offset, hread, htext, Text.slice_append]
  unfold endStatement State.endStatement
  split
  · rfl
  · rw [hslice]
    rfl

theorem exists_step (hx : x.Stands read) (h : x.state.step c = .ok t) (rest : List Char) :
    ∃ start, x.step (read ++ c :: rest) c = .ok ⟨t, start⟩ ∧
      Stands ⟨t, start⟩ (read ++ [c]) := by
  obtain ⟨before, hread, hstart⟩ := hx.start
  have hlength : x.state.offset + c.utf8Size = byteLength (read ++ [c]) := by
    simp [hx.offset]
  cases hending : x.state.ending? c with
  | some u =>
    rw [State.step_of_ending? hending] at h
    obtain ⟨htext, -, hoffset⟩ := State.ending?_same hending
    split at h
    · cases h
    · next hwords =>
      obtain rfl := Except.ok.inj h
      rw [hoffset.symm] at hlength
      refine ⟨u.offset + c.utf8Size, ?_, hlength, read ++ [c], (List.append_nil _).symm, hlength⟩
      rw [step, hending, State.separate_eq]
      dsimp only
      rw [separate, if_neg hwords, endStatement_eq hx (c :: rest) htext hoffset]
  | none =>
    cases State.consumes_of_step h with
    | separates u hu => cases hending.symm.trans hu
    | joins htext _ hoffset =>
      refine ⟨x.start, ?_, hoffset.trans hlength, before, ?_, hstart⟩
      · rw [step, hending]
        dsimp only
        rw [h]
      · rw [hread, htext]
        simp

theorem step_error (h : x.state.step c = .error m) (input : List Char) :
    x.step input c = .error (.malformed m) := by
  unfold step
  cases hending : x.state.ending? c with
  | some u =>
    rw [State.step_of_ending? hending] at h
    split at h
    · next hempty =>
      obtain rfl := Except.error.inj h
      dsimp only
      rw [separate, if_pos hempty, (State.ending?_same hending).2.2]
    · cases h
  | none =>
    dsimp only
    rw [h]

/-- A text that is not refused is read by offsets, too. -/
theorem exists_run (hx : x.Stands read) (h : x.state.run cs = .ok t) :
    ∃ start, x.run (read ++ cs) cs = .ok ⟨t, start⟩ ∧ Stands ⟨t, start⟩ (read ++ cs) := by
  induction cs generalizing x read with
  | nil =>
    obtain rfl := Except.ok.inj h
    rw [List.append_nil]
    exact ⟨x.start, rfl, hx⟩
  | cons c cs ih =>
    rw [State.run] at h
    split at h
    · next u hstep =>
      obtain ⟨start, hcursor, hu⟩ := exists_step hx hstep cs
      rw [run, hcursor, List.append_cons]
      exact ih hu h
    · cases h

theorem run_error (hx : x.Stands read) (h : x.state.run cs = .error m) :
    x.run (read ++ cs) cs = .error (.malformed m) := by
  induction cs generalizing x read with
  | nil => cases h
  | cons c cs ih =>
    rw [State.run] at h
    split at h
    · next u hstep =>
      obtain ⟨start, hcursor, hu⟩ := exists_step hx hstep cs
      rw [run, hcursor, List.append_cons]
      exact ih hu h
    · next hstep =>
      obtain rfl := Except.error.inj h
      rw [run, step_error hstep]

end Cursor

/-- **Texts of statements.** Every cut of the scan lies inside the text and between two characters,
and what is cut out is the text of the statement. -/
theorem tokenizeByOffset_eq (text : String) : tokenizeByOffset text = .ok (tokenize text) := by
  unfold tokenizeByOffset tokenize scan
  have hzero := Cursor.stands_zero
  cases hrun : State.start.run text.toList with
  | error m =>
    have herror := Cursor.run_error hzero hrun
    rw [List.nil_append] at herror
    rw [herror]
  | ok t =>
    obtain ⟨start, hok, ht⟩ := Cursor.exists_run hzero hrun
    rw [List.nil_append] at hok ht
    rw [hok]
    show Cursor.finish text.toList ⟨t, start⟩ = .ok t.finish
    unfold Cursor.finish State.finish
    rw [State.finish?_eq]
    cases hlast : t.lastWord? with
    | none => rfl
    | some u =>
      obtain ⟨htext, -, hoffset⟩ := State.lastWord?_same hlast
      have hend := Cursor.endStatement_eq ht [] htext hoffset
      rw [List.append_nil] at hend
      dsimp only
      rw [hend]
      rfl

/-! ## Faults -/

/-- What stands behind the last line feed of a text. -/
def lastRow (cs : List Char) : Except BadOffset (List Char) :=
  match Text.findLast? (· == '\n') cs with
  | some lineFeed => do
    let (_, row) ← Text.cut (lineFeed + 1) cs
    return row
  | none => .ok cs

/-- The marker row of a fault, with the text before the fault cut out of the input. -/
def Malformed.markerByOffset (m : Malformed) (input : String) : Except BadOffset String := do
  let (before, _) ← Text.cut (min m.offset (byteLength input.toList)) input.toList
  let row ← lastRow before
  return String.ofList (List.replicate row.length ' ') ++ "^ " ++ m.fault.message

theorem lastRow_eq (cs : List Char) :
    lastRow cs = .ok (cs.reverse.takeWhile (· ≠ '\n')).reverse := by
  unfold lastRow
  cases hfind : Text.findLast? (· == '\n') cs with
  | none =>
    have hnone : ∀ c ∈ cs.reverse, decide (c ≠ '\n') = true := by
      intro c hc
      simpa using Text.findLast?_eq_none hfind c (List.mem_reverse.1 hc)
    rw [List.takeWhile_eq_self_iff.2 hnone, List.reverse_reverse]
  | some n =>
    obtain ⟨before, c, row, rfl, rfl, hc, hrow⟩ := Text.exists_of_findLast? hfind
    obtain rfl : c = '\n' := by simpa using hc
    have hlast : '\n' ∉ row.reverse := fun hmem =>
      absurd (hrow '\n' (List.mem_reverse.1 hmem)) (by decide)
    rw [List.reverse_append, List.reverse_cons, List.append_assoc, List.singleton_append,
      Text.takeWhile_ne_append hlast, List.reverse_reverse]
    dsimp only
    rw [Text.cut_succ (by decide)]
    rfl

theorem firstBytes_append (before behind : List Char) :
    firstBytes (byteLength before) (before ++ behind) = before := by
  induction before with
  | nil =>
    cases behind with
    | nil => rfl
    | cons c behind =>
      have hsize := c.utf8Size_pos
      rw [List.nil_append, firstBytes, if_neg (by simp only [Text.byteLength_nil]; omega)]
  | cons c before ih =>
    rw [List.cons_append, firstBytes, Text.byteLength_cons, if_pos (Nat.le_add_right _ _),
      Nat.add_sub_cancel_left, ih]

/-- The marker of a fault between two characters can be cut out. -/
theorem Malformed.markerByOffset_eq {m : Malformed} {input : String} {before behind : List Char}
    (hinput : input.toList = before ++ behind) (hoffset : m.offset = byteLength before) :
    m.markerByOffset input = .ok (m.marker input) := by
  have hmin : min m.offset (byteLength input.toList) = byteLength before := by
    rw [hoffset, hinput, Text.byteLength_append]
    omega
  unfold markerByOffset marker Shell.marker
  rw [hmin, hinput, Text.cut_append, hoffset, firstBytes_append]
  show (do
    let row ← lastRow before
    return String.ofList (List.replicate row.length ' ') ++ "^ " ++ m.fault.message) = _
  rw [lastRow_eq]
  show Except.ok _ = _
  rw [List.length_reverse]

namespace State

/-- A scan has read a text, and the escape that it stands in begins there. -/
structure Reaches (s : State) (read : List Char) : Prop where
  offset : s.offset = byteLength read
  escape : ∀ start, s.mode.escapeStart? = some start →
    ∃ before behind, read = before ++ '\\' :: behind ∧ start = byteLength before

variable {s t : State} {c : Char} {read cs : List Char} {m : Malformed}

theorem reaches_start : start.Reaches [] :=
  ⟨rfl, nofun⟩

theorem Reaches.step (hs : s.Reaches read) (h : s.step c = .ok t) : t.Reaches (read ++ [c]) := by
  have hlength : s.offset + c.utf8Size = byteLength (read ++ [c]) := by
    simp [hs.offset]
  cases consumes_of_step h with
  | joins _ _ hoffset _ hescape =>
    refine ⟨hoffset.trans hlength, fun start hstart => ?_⟩
    rcases hescape start hstart with hold | ⟨rfl, rfl⟩
    · obtain ⟨before, behind, rfl, rfl⟩ := hs.escape start hold
      exact ⟨before, behind ++ [c], by simp, rfl⟩
    · exact ⟨read, [], rfl, hs.offset⟩
  | separates u hending heq =>
    subst heq
    rw [← (ending?_same hending).2.2] at hlength
    exact ⟨hlength, nofun⟩

theorem Reaches.of_run (hs : s.Reaches read) (h : s.run cs = .ok t) : t.Reaches (read ++ cs) :=
  run_invariant Reaches (fun hs hstep => hs.step hstep) read hs h

theorem offset_of_run (h : start.run cs = .ok t) : t.offset = byteLength cs :=
  (reaches_start.of_run h).offset

/-- A fault lies where a text was read or at the character that is refused. -/
theorem Reaches.fault (hs : s.Reaches read) (h : s.step c = .error m) (rest : List Char) :
    ∃ before d behind, read ++ c :: rest = before ++ d :: behind ∧
      m.offset = byteLength before ∧ (d = ';' ∨ d = '\\') := by
  rcases fault_of_step h with ⟨rfl, hoffset⟩ | hstart
  · exact ⟨read, ';', rest, rfl, hoffset.trans hs.offset, .inl rfl⟩
  · obtain ⟨before, behind, rfl, hoffset⟩ := hs.escape m.offset hstart
    exact ⟨before, '\\', behind ++ c :: rest, by simp, hoffset, .inr rfl⟩

theorem Reaches.run (hs : s.Reaches read) (h : s.run cs = .error m) :
    ∃ before d behind, read ++ cs = before ++ d :: behind ∧ m.offset = byteLength before ∧
      (d = ';' ∨ d = '\\') := by
  obtain ⟨more, c, behind, t, rfl, hrun, hstep⟩ := exists_of_run_error h
  rw [← List.append_assoc]
  exact (hs.of_run hrun).fault hstep behind

end State

/-- **Faults.** The character to blame for a fault is a `;` or a backslash of the text, and the
offset is where it stands. -/
theorem exists_of_malformed {text : String} {m : Malformed} (h : tokenize text = .malformed m) :
    ∃ before c behind, text.toList = before ++ c :: behind ∧ m.offset = byteLength before ∧
      (c = ';' ∨ c = '\\') :=
  State.reaches_start.run (scan_eq_malformed_iff.1 h)

end Runbook.Shell
