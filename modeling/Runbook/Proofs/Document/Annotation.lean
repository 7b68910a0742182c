import Runbook.Proofs.Document.Parts

/-!
# Attributes and their procedures

Remarks are blank lines, comments and attribute lines. A load that comes to a header has waiting
the attributes of the remarks directly above it, as far as they were read between entries
(`State.Annotated.pending`); an entry of another kind in between has them dropped. The invariant
names the lines, so that what looks like an attribute inside a block or a command is told from what
is one (`loadText_annotates`).
-/

namespace Runbook.Document

/-- Blank lines, comments and attributes may stand between an attribute and its procedure. -/
def LineKind.isRemark : LineKind → Bool
  | .attribute | .comment | .empty => true
  | _ => false

def Part.isRemark : Part → Bool
  | .blank | .attributeLine _ => true
  | _ => false

/-- What an attribute line leaves waiting. -/
def Part.attributes : Part → List (String × String)
  | .attributeLine a => a.toList
  | _ => []

/-- The attributes on some lines, in their order; a line that is not well formed has none. -/
def attributesIn (lines : List String) : List (String × String) :=
  (lines.filter isAttributeLine).filterMap attribute?

/-- The lines end in this run of remarks. It is as long as can be: before it the text starts, or an
entry of another kind has come to its end. -/
def EndsInRemarks (lines run : List String) : Prop :=
  ∃ before es, lines = before ++ run ∧ Consists 0 before es ∧
    (∀ e ∈ es.getLast?, e.part.isRemark = false) ∧
    ∀ line ∈ run, (classify line).isRemark = true

section Remarks

variable {k : Nat} {line first : String} {lines more run run' before middle : List String}
  {es es' : List Entry} {x : Part}

theorem attributesIn_append (xs ys : List String) :
    attributesIn (xs ++ ys) = attributesIn xs ++ attributesIn ys := by
  unfold attributesIn
  rw [List.filter_append, List.filterMap_append]

theorem isAttributeLine_eq_false_of_isEmptyLine (h : isEmptyLine line = true) :
    isAttributeLine line = false := by
  by_contra hline
  have hcomment := isCommentLine_of_isAttributeLine (Bool.eq_true_of_not_eq_false hline)
  have hhead : (Text.trim line.toList).head? = some '#' :=
    Text.head?_trim _ ▸ of_decide_eq_true hcomment
  rw [List.isEmpty_iff.1 h] at hhead
  cases hhead

/-- Among the remarks the attributes are the lines with their mark. -/
theorem isAttributeLine_of_isRemark (h : (classify line).isRemark = true) :
    isAttributeLine line = decide (classify line = .attribute) := by
  have hempty : isEmptyLine line = true → isAttributeLine line = false :=
    isAttributeLine_eq_false_of_isEmptyLine
  unfold classify at h ⊢
  grind [LineKind.isRemark]

theorem Part.IsMadeBy.isRemark_eq (h : x.IsMadeBy first more) :
    x.isRemark = (classify first).isRemark := by
  unfold IsMadeBy at h
  cases hkind : classify first with
  | header name bracket =>
    rw [hkind] at h
    obtain ⟨head, body, b, inner, -, -, -, rfl⟩ := h
    rfl
  | left b =>
    rw [hkind] at h
    obtain ⟨inner, -, rfl⟩ := h
    rfl
  | command =>
    rw [hkind] at h
    obtain ⟨command, -, -, rfl⟩ := h
    rfl
  | right b =>
    rw [hkind] at h
    exact h.elim
  -- The other parts are single lines.
  | _ =>
    rw [hkind] at h
    obtain ⟨-, rfl⟩ := h
    rfl

theorem Part.IsMadeBy.header {name : String} {b : Bracket} {inner : List Element}
    (h : (Part.procedure name b inner).IsMadeBy first more) :
    ∃ bracket, classify first = .header name bracket := by
  unfold IsMadeBy at h
  grind

theorem Part.IsMadeBy.of_isRemark (h : x.IsMadeBy first more)
    (hremark : (classify first).isRemark = true) :
    more = [] ∧ x.attributes = attributesIn [first] := by
  have hmark := isAttributeLine_of_isRemark hremark
  unfold IsMadeBy at h
  unfold attributesIn
  rw [List.filter_singleton, hmark]
  cases hkind : classify first with
  | «attribute» =>
    rw [hkind] at h
    obtain ⟨rfl, rfl⟩ := h
    cases hread : attribute? first <;> simp [attributes, hread]
  | empty =>
    rw [hkind] at h
    obtain ⟨rfl, rfl⟩ := h
    exact ⟨rfl, rfl⟩
  | comment =>
    rw [hkind] at h
    obtain ⟨rfl, rfl⟩ := h
    exact ⟨rfl, rfl⟩
  | _ =>
    rw [hkind] at hremark
    cases hremark

theorem exists_isMadeBy_of_isRemark (h : (classify line).isRemark = true) :
    ∃ x : Part, x.IsMadeBy line [] := by
  unfold Part.IsMadeBy
  cases hkind : classify line with
  | «attribute» => exact ⟨_, rfl, rfl⟩
  | empty => exact ⟨_, rfl, rfl⟩
  | comment => exact ⟨_, rfl, rfl⟩
  | _ =>
    rw [hkind] at h
    cases h

theorem consists_of_isRemark (k : Nat) (h : ∀ line ∈ run, (classify line).isRemark = true) :
    ∃ es, Consists k run es ∧ ∀ e ∈ es, e.part.isRemark = true := by
  induction run generalizing k with
  | nil => exact ⟨[], .nil k, by simp⟩
  | cons line run ih =>
    obtain ⟨hline, hrun⟩ := List.forall_mem_cons.1 h
    obtain ⟨x, hpart⟩ := exists_isMadeBy_of_isRemark hline
    obtain ⟨es, hes, hremarks⟩ := ih (k + 1) hrun
    exact ⟨⟨k + 1, x⟩ :: es, .cons hpart hes,
      List.forall_mem_cons.2 ⟨hpart.isRemark_eq.trans hline, hremarks⟩⟩

/-- No remark of a run is left to the entries before it. -/
theorem Consists.eq_nil_of_isRemark (h : Consists 0 before es)
    (h' : Consists 0 (before ++ middle) es')
    (hlast : ∀ e ∈ es'.getLast?, e.part.isRemark = false)
    (hmiddle : ∀ line ∈ middle, (classify line).isRemark = true) : middle = [] := by
  obtain ⟨rs, hrs, hremarks⟩ := consists_of_isRemark (0 + before.length) hmiddle
  obtain rfl := h'.unique (h.append hrs)
  rcases List.eq_nil_or_concat rs with rfl | ⟨rs, e, rfl⟩
  · cases hrs
    rfl
  · have hremark := hremarks e (by simp)
    rw [hlast e (by simp)] at hremark
    cases hremark

namespace EndsInRemarks

theorem unique (h : EndsInRemarks lines run) (h' : EndsInRemarks lines run') : run' = run := by
  obtain ⟨before, es, rfl, hes, hlast, hremarks⟩ := h
  obtain ⟨before', es', hlines, hes', hlast', hremarks'⟩ := h'
  rcases List.append_eq_append_iff.1 hlines with ⟨middle, rfl, rfl⟩ | ⟨middle, rfl, rfl⟩
  · obtain rfl := hes.eq_nil_of_isRemark hes' hlast' fun line hline =>
      hremarks line (List.mem_append_left _ hline)
    rfl
  · obtain rfl := hes'.eq_nil_of_isRemark hes hlast fun line hline =>
      hremarks' line (List.mem_append_left _ hline)
    rfl

theorem nil : EndsInRemarks [] [] :=
  ⟨[], [], rfl, .nil 0, by simp, by simp⟩

theorem concat (h : EndsInRemarks lines run) (hline : (classify line).isRemark = true) :
    EndsInRemarks (lines ++ [line]) (run ++ [line]) := by
  obtain ⟨before, es, rfl, hes, hlast, hremarks⟩ := h
  refine ⟨before, es, List.append_assoc .., hes, hlast, ?_⟩
  exact List.forall_mem_append.2 ⟨hremarks, List.forall_mem_singleton.2 hline⟩

theorem entry (h : EndsInRemarks lines run) (hpart : x.IsMadeBy first more)
    (hx : x.isRemark = false) : EndsInRemarks (lines ++ first :: more) [] := by
  obtain ⟨before, es, rfl, hes, -, hremarks⟩ := h
  obtain ⟨rs, hrs, -⟩ := consists_of_isRemark (0 + before.length) hremarks
  have hlast : Consists (0 + (before ++ run).length) (first :: (more ++ [])) [⟨_, x⟩] :=
    .cons hpart (.nil _)
  rw [List.append_nil] at hlast
  exact ⟨_, _, (List.append_nil _).symm, (hes.append hrs).append hlast, by simpa using hx,
    by simp⟩

end EndsInRemarks

end Remarks

namespace State

variable {c : Setting} {pos : Position} {file name first : String} {lines more rest : List String}
  {s t u : State} {x : Part} {y : Procedure} {es : List Entry}

/-! ## What an entry does to the attributes -/

/-- A remark adds its attributes to those that wait, any other entry leaves none. -/
theorem Adds.pending_eq (h : s.Adds c pos x t) :
    t.pending = if x.isRemark then x.attributes ++ s.pending else [] := by
  cases h <;> rfl

theorem Adds.get?_declarations (h : s.Adds c pos x t) {p : Position}
    (hp : s.pipeline.declarations.get? name = some p) :
    t.pipeline.declarations.get? name = some p := by
  cases h with
  | procedure other b inner hnew =>
    refine (ByName.get?_insert _ _ _ _).trans ((if_neg ?_).trans hp)
    rintro rfl
    cases hnew.symm.trans hp
  | _ => exact hp

/-- A procedure was there before the entry, or the entry is the one that declares it and has given
it the attributes that waited. -/
theorem Adds.procedure_origin (h : s.Adds c pos x t)
    (hy : t.pipeline.procedures.get? name = some y) :
    s.pipeline.procedures.get? name = some y ∨
      ∃ b inner, x = .procedure name b inner ∧
        t.pipeline.declarations.get? name = some pos ∧ y.attributes = s.pending.reverse := by
  cases h with
  | procedure other b inner hnew =>
    replace hy := (ByName.get?_insert _ _ _ _).symm.trans hy
    split at hy
    · next hname =>
      subst hname
      obtain rfl := Option.some.inj hy
      refine .inr ⟨b, inner, rfl, ?_, rfl⟩
      exact (ByName.get?_insert _ _ _ _).trans (if_pos rfl)
    · exact .inl hy
  | _ => exact .inl hy

/-! ## Loads -/

/-- The procedure is declared at one of these lines, which is its header, and has the attributes of
the remarks directly above it. -/
def TakesAbove (p : Pipeline) (file : String) (lines : List String) (name : String)
    (y : Procedure) : Prop :=
  ∃ front run header bracket behind, lines = front ++ header :: behind ∧
    classify header = .header name bracket ∧
    p.declarations.get? name = some ⟨file, front.length + 1⟩ ∧
    EndsInRemarks front run ∧ y.attributes = attributesIn run

/-- A load between entries, behind these lines: what waits are the attributes of the remarks at
their end, and each procedure has taken those above its header. -/
structure Annotated (s : State) (file : String) (lines : List String) : Prop where
  pending : ∃ run, EndsInRemarks lines run ∧ s.pending.reverse = attributesIn run
  procedures : ∀ name y, s.pipeline.procedures.get? name = some y →
    TakesAbove s.pipeline file lines name y

theorem annotated_start (options : Options) (file : String) :
    (State.start options).Annotated file [] :=
  ⟨⟨[], .nil, rfl⟩, fun _ _ h => by cases h⟩

theorem Annotated.adds (hs : s.Annotated file lines) (hpart : x.IsMadeBy first more)
    (h : s.Adds c ⟨file, lines.length + 1⟩ x t) : t.Annotated file (lines ++ first :: more) := by
  obtain ⟨run, hrun, hpending⟩ := hs.pending
  constructor
  · cases hx : x.isRemark with
    | true =>
      have hline := hpart.isRemark_eq.symm.trans hx
      obtain ⟨rfl, hattributes⟩ := hpart.of_isRemark hline
      refine ⟨run ++ [first], hrun.concat hline, ?_⟩
      rw [h.pending_eq, if_pos hx, List.reverse_append, hpending, attributesIn_append,
        ← hattributes]
      congr 1
      cases x with
      | attributeLine a => cases a <;> rfl
      | _ => rfl
    | false =>
      refine ⟨[], hrun.entry hpart hx, ?_⟩
      rw [h.pending_eq, if_neg (by simp [hx])]
      rfl
  · intro name y hy
    rcases h.procedure_origin hy with hold | ⟨b, inner, rfl, hdeclared, hattributes⟩
    · obtain ⟨front, run', header, bracket, behind, rfl, hheader, hdeclared, hrun', hattributes⟩ :=
        hs.procedures name y hold
      exact ⟨front, run', header, bracket, behind ++ first :: more, by simp, hheader,
        h.get?_declarations hdeclared, hrun', hattributes⟩
    · obtain ⟨bracket, hheader⟩ := hpart.header
      exact ⟨lines, run, first, bracket, more, rfl, hheader, hdeclared, hrun,
        hattributes.trans hpending⟩

theorem Annotated.addsAll (hs : s.Annotated file lines) (h : Consists lines.length rest es)
    (hall : s.AddsAll c file es u) : u.Annotated file (lines ++ rest) := by
  generalize hk : lines.length = k at h
  induction h generalizing s lines with
  | nil k =>
    obtain rfl := hall
    rwa [List.append_nil]
  | @cons k first more rest x es hpart _ ih =>
    obtain ⟨t, hadds, hall⟩ := hall
    subst hk
    have ht := hs.adds hpart hadds
    have hbehind := ih ht hall (by simp)
    rwa [List.append_assoc, List.cons_append] at hbehind

end State

/-- **Attributes.** Of the lines of a text that loads, those that count for a procedure are the
remarks directly above its header, from the end of the last entry of another kind on: the
procedure has their attributes, in their order, and no others. -/
theorem loadText_annotates {c : Setting} {file text : String} {d : Loaded}
    (h : (loadText c file text).result = .ok d) (name : String) (x : Procedure)
    (hx : d.pipeline.procedures.get? name = some x) :
    ∃ front run header bracket behind, Text.lines text = front ++ header :: behind ∧
      classify header = .header name bracket ∧
      d.pipeline.declarations.get? name = some ⟨file, front.length + 1⟩ ∧
      EndsInRemarks front run ∧ (∀ run', EndsInRemarks front run' → run' = run) ∧
      x.attributes = attributesIn run := by
  obtain ⟨es, u, hes, hall, hfinish⟩ := loadText_ok_iff_consists.1 h
  obtain ⟨-, -, rfl⟩ := State.finish_ok_iff.1 hfinish
  have hu := (State.annotated_start c.options file).addsAll hes hall
  obtain ⟨front, run, header, bracket, behind, hlines, hheader, hdeclared, hrun, hattributes⟩ :=
    hu.procedures name x hx
  exact ⟨front, run, header, bracket, behind, hlines, hheader, hdeclared, hrun,
    fun run' hrun' => hrun.unique hrun', hattributes⟩

/-- A document with attribute lines above other entries, inside a command, above a procedure and in
its body; of those above it one is not well formed, and one repeats a key. -/
def annotatedDocument : String :=
  Text.unlines ["#@ a: 1", "echo 'b", "#@ c: 2", "d'", "#@ e: 3", "f = g", "#@ desc: one", "",
    "#@ bad", "# note", "\t#@ desc: two", "build()", "# gap", "\x7b", "#@ h: 4", "make", "\x7d",
    "#@ i: 5"]

def annotatedLoaded : Loaded where
  pipeline :=
    ⟨#[⟨[.ofLine "echo 'b\n#@ c: 2\nd'"], false⟩, ⟨[.ofLine "make"], false⟩],
      .ofList [("build", ⟨"build", 1, [("desc", "one"), ("desc", "two")]⟩)],
      .ofList [("build", ⟨"doc.pipe", 12⟩)]⟩
  assigned := .ofList [("f", "g")]

theorem loadText_annotates_annotatedDocument :
    (loadText .alone "doc.pipe" annotatedDocument).result = .ok annotatedLoaded ∧
      ∃ front run header bracket behind,
        Text.lines annotatedDocument = front ++ header :: behind ∧
        classify header = .header "build" bracket ∧ front.length = 11 ∧
        EndsInRemarks front run ∧ attributesIn run = [("desc", "one"), ("desc", "two")] := by
  have hload : (loadText .alone "doc.pipe" annotatedDocument).result = .ok annotatedLoaded := by
    decide +kernel
  obtain ⟨front, run, header, bracket, behind, hlines, hheader, hdeclared, hrun, -, hattributes⟩ :=
    loadText_annotates hload "build" _ rfl
  have hpos : (⟨"doc.pipe", 12⟩ : Position) = ⟨"doc.pipe", front.length + 1⟩ :=
    Option.some.inj hdeclared
  have hlength : front.length = 11 := (Nat.succ.inj (congrArg Position.line hpos)).symm
  exact ⟨hload, front, run, header, bracket, behind, hlines, hheader, hlength, hrun,
    hattributes.symm⟩

end Runbook.Document
