import Runbook.Proofs.Document.Attribute
import Runbook.Proofs.Document.Written

/-!
# Entries that are read back

What a document is written as, entry by entry: attributes, a procedure, a bare command, a block.
Each entry is read from an idle state to an idle state, and adds to the load what it was written
from.
-/

namespace Runbook.Document

open Shell (posix)
open Text (physicalLines)

namespace State

variable {c : Setting} {file : String} {known : String → Bool}

theorem result_run_blank {s : State} (hmode : s.mode = .idle) (k : Nat) (lines : List String) :
    (s.run c file k ("" :: lines)).result = (s.run c file (k + 1) lines).result :=
  result_run_cons (.skip hmode (.inl (by decide))) lines

/-! ## Attributes -/

theorem result_run_attributes {s : State} (file : String) (hmode : s.mode = .idle)
    {as : List (String × String)} (has : ∀ a ∈ as, IsAttribute a) (k : Nat) :
    (s.run c file k ((as.map Pipeline.attributeRow).flatMap physicalLines)).result =
      .ok { s with pending := as.reverse ++ s.pending } := by
  induction as generalizing s k with
  | nil => rfl
  | cons a as ih =>
    obtain ⟨ha, has⟩ := List.forall_mem_cons.1 has
    have hmove : s.Moves c ⟨file, k + 1⟩ (Pipeline.attributeRow a)
        { s with pending := a :: s.pending } :=
      .annotates a hmode (classify_attributeRow ha) (attribute?_attributeRow ha)
    rw [List.map_cons, List.flatMap_cons, physicalLines_attributeRow ha, List.singleton_append,
      result_run_cons hmove, ih (s := { s with pending := a :: s.pending }) hmode has]
    simp

/-! ## Blocks -/

/-- What the rows behind the opening bracket of an outermost block achieve: a table with a block for
the outline. -/
structure Built (known : String → Bool) (t : Table) (parallel : Bool) (members : List Outline)
    (b : Block) (t' : Table) : Prop where
  parallel : b.parallel = parallel
  grows : t.Extends t'
  nonempty : 0 < t'.size
  tableSettled : t'.Settled known
  settled : b.Settled known
  represents : RepresentsAll known t' members b.items

/-- The new block stands for the outline once it is in the table. -/
theorem Built.represents_block {t t' : Table} {parallel : Bool} {members : List Outline} {b : Block}
    (h : Built known t parallel members b t') :
    Represents known (t'.push b) (.group parallel members) (.block t'.size) := by
  rw [Represents]
  exact ⟨t'.size, b, rfl, h.nonempty, by simp, h.parallel,
    h.represents.mono (Table.Extends.push t' b)⟩

/-- The lines behind the opening bracket of an outermost block lead to its closing bracket, and that
line to the end of the block. -/
theorem exists_built (parallel : Bool) {members : List Outline} {t : Table}
    (hmembers : Outline.ReadableAll known members) (hsize : 0 < t.size)
    (hsettled : t.Settled known) :
    ∃ b t' n, Built known t parallel members b t' ∧
      (Nest.new (.ofParallel parallel)).Follows
        ((Outline.rowsAll posix ("" ++ "\t") members).flatMap physicalLines) t n t' ∧
      n.Moves ("" ++ (Bracket.ofParallel parallel).closing) t' (.closed b t') := by
  have hindent : IsIndent ("" ++ "\t") := by
    intro c hc
    simpa using hc
  obtain ⟨xs, t', h⟩ := exists_achieves_rowsAll hmembers hindent
    (n := .new (.ofParallel parallel)) rfl hsize hsettled
  have hblock : ((Frame.new (.ofParallel parallel)).append xs).block = ⟨xs, parallel⟩ := by
    rw [Frame.block_append, Frame.block_new, Bracket.isParallel_ofParallel]
    rfl
  refine ⟨⟨xs, parallel⟩, t', _, ⟨rfl, h.grows, h.nonempty, h.tableSettled, h.settled,
    h.represents⟩, h.follows, ?_⟩
  rw [← hblock]
  exact .closing rfl rfl (rightBracket?_closing (by simp))

/-! ## Procedures -/

theorem physicalLines_headerRow {name : String} (h : IsProcedureName name) (b : Bracket) :
    physicalLines (headerRow name b) = [headerRow name b] := by
  apply Text.physicalLines_of_isRow
  rw [toList_headerRow]
  constructor
  · rw [List.mem_append, not_or]
    refine ⟨lineFeed_not_mem_of_isPlain h.isPlain, ?_⟩
    cases b <;> decide
  · rw [List.getLast?_append]
    cases b <;> simp [Bracket.opening]

/-- The state behind a header with its bracket. -/
def opened (s : State) (name : String) (pos : Position) (b : Bracket) : State :=
  { s with
    pipeline := s.pipeline.declare name pos
    mode := .body (some ⟨name, pos⟩) (.new b) }

/-- The header and the body of a procedure add it to the load, with the attributes that wait for
it. -/
theorem exists_run_body {s : State} {name : String} (file : String) (parallel : Bool)
    {members : List Outline}
    (hmode : s.mode = .idle) (hname : IsProcedureName name)
    (hmembers : Outline.ReadableAll known members) (hsize : 0 < s.pipeline.blocks.size)
    (hsettled : Table.Settled known s.pipeline.blocks)
    (hdeclared : s.pipeline.declarations.get? name = none)
    (hnew : s.pipeline.procedures.contains name = false) (k : Nat) :
    ∃ b t, Built known s.pipeline.blocks parallel members b t ∧
      (s.run c file k (headerRow name (.ofParallel parallel) ::
          ((Outline.rowsAll posix ("" ++ "\t") members).flatMap physicalLines ++
            ["" ++ (Bracket.ofParallel parallel).closing]))).result =
        .ok ({ s with
          pipeline := s.pipeline.declare name ⟨file, k + 1⟩ }.withProcedure name b t) := by
  obtain ⟨b, t, n, hbuilt, hfollows, hclosing⟩ :=
    exists_built parallel hmembers hsize hsettled
  have hheader : s.Moves c ⟨file, k + 1⟩ (headerRow name (.ofParallel parallel))
      (s.opened name ⟨file, k + 1⟩ (.ofParallel parallel)) :=
    .header name (some (.ofParallel parallel)) hmode (classify_headerRow hname _) hdeclared
  have hbody := run_of_follows (c := c) file hfollows
    (s := s.opened name ⟨file, k + 1⟩ (.ofParallel parallel)) rfl rfl (k + 1)
  have hprocedure (pos : Position) : State.Moves c pos _
      (((s.opened name ⟨file, k + 1⟩ (.ofParallel parallel)).withTable t).enter
        (.body (some ⟨name, ⟨file, k + 1⟩⟩) n)) _ :=
    .procedure ⟨name, ⟨file, k + 1⟩⟩ n b t rfl hclosing hnew
  refine ⟨b, t, hbuilt, ?_⟩
  rw [result_run_cons hheader, result_run_append hbody, result_run_cons (hprocedure _)]
  rfl

/-- **Procedures.** The rows of a procedure add it to the load, with its attributes and a block that
stands for its body. -/
theorem exists_run_procedure {s : State} {x : Procedure} (file : String) (parallel : Bool)
    {members : List Outline}
    (hmode : s.mode = .idle) (hpending : s.pending = []) (hname : IsProcedureName x.name)
    (hattributes : ∀ a ∈ x.attributes, IsAttribute a)
    (hmembers : Outline.ReadableAll known members) (hsize : 0 < s.pipeline.blocks.size)
    (hsettled : Table.Settled known s.pipeline.blocks)
    (hdeclared : s.pipeline.declarations.get? x.name = none)
    (hnew : s.pipeline.procedures.contains x.name = false) (k : Nat) :
    ∃ b t pos, Built known s.pipeline.blocks parallel members b t ∧
      (s.run c file k
        ((x.attributes.map Pipeline.attributeRow ++
          ((Outline.group parallel members).rows posix "").modifyHead
            (x.name ++ "() " ++ ·)).flatMap physicalLines)).result = .ok
        { s with
          pipeline :=
            { blocks := t.push b
              procedures := s.pipeline.procedures.insert x.name ⟨x.name, t.size, x.attributes⟩
              declarations := s.pipeline.declarations.insert x.name pos }
          mode := .idle } := by
  have hrows : ((Outline.group parallel members).rows posix "").modifyHead (x.name ++ "() " ++ ·) =
      headerRow x.name (.ofParallel parallel) ::
        (Outline.rowsAll posix ("" ++ "\t") members ++
          ["" ++ (Bracket.ofParallel parallel).closing]) := by
    rw [Outline.rows, List.modifyHead_cons, String.empty_append]
    rfl
  have hattributeRows := result_run_attributes (c := c) file hmode hattributes k
  obtain ⟨b, t, hbuilt, hbody⟩ := exists_run_body (c := c) file parallel
    (s := { s with pending := x.attributes.reverse ++ s.pending })
    hmode hname hmembers hsize hsettled hdeclared hnew
    (k + ((x.attributes.map Pipeline.attributeRow).flatMap physicalLines).length)
  refine ⟨b, t,
    ⟨file, k + ((x.attributes.map Pipeline.attributeRow).flatMap physicalLines).length + 1⟩,
    hbuilt, ?_⟩
  rw [hrows, List.flatMap_append, List.flatMap_cons, physicalLines_headerRow hname,
    List.flatMap_append, List.flatMap_singleton, physicalLines_closing (by decide),
    List.singleton_append, result_run_append hattributeRows, hbody]
  unfold withProcedure
  simp only [hpending, List.append_nil, List.reverse_reverse, Pipeline.declare]

/-! ## The default block -/

/-- **Blocks.** The rows of a block that stand alone add an item for it to the default block. -/
theorem exists_run_group {s : State} {parallel : Bool} {members : List Outline}
    (hmode : s.mode = .idle) (hpending : s.pending = [])
    (hmembers : Outline.ReadableAll known members) (hsize : 0 < s.pipeline.blocks.size)
    (hsettled : Table.Settled known s.pipeline.blocks) (k : Nat) :
    ∃ b t, Built known s.pipeline.blocks parallel members b t ∧
      (s.run c file k
          (((Outline.group parallel members).rows posix "").flatMap physicalLines)).result =
        .ok ((s.withTable (t.push b)).appendDefault [.block t.size]) := by
  obtain ⟨b, t, n, hbuilt, hfollows, hclosing⟩ :=
    exists_built parallel hmembers hsize hsettled
  have hdrop : s.drop = s := by
    unfold drop
    rw [← hpending]
  have hopening : classify ("" ++ (Bracket.ofParallel parallel).opening) =
      .left (.ofParallel parallel) := by
    cases parallel <;> decide
  refine ⟨b, t, hbuilt, ?_⟩
  rw [Outline.rows, List.flatMap_cons, physicalLines_opening (by decide), List.flatMap_append,
    List.flatMap_singleton, physicalLines_closing (by decide), List.singleton_append,
    result_run_cons (.opening _ hmode hopening), hdrop,
    result_run_append (run_of_follows (s := s.enter (.body none (.new (.ofParallel parallel)))) file
      hfollows rfl rfl _),
    result_run_cons (.closing n b t rfl hclosing)]
  rfl

theorem result_run_completes {s s' : State} {b : Block} {x : Item} {line l text : String}
    {rest : List String} (hreads : s.Reads l s' text) (hcompletes : Completes line text rest)
    (hdefault : s.pipeline.defaultBlock = .ok b)
    (hplaced : ∃ statements, Shell.tokenize line = .complete statements ∧
      ∀ parallel, Placement.ofCommand line statements parallel = .items [x]) (k : Nat) :
    (s.run c file k (l :: rest)).result = .ok (s'.appendDefault [x]) := by
  have hpipeline := hreads.pipeline_eq
  induction rest generalizing s s' l text k with
  | nil =>
    obtain ⟨statements, hscan, hitems⟩ := hplaced
    obtain rfl : text = line := hcompletes
    have htable : s'.withTable s.pipeline.blocks = s' := by
      unfold withTable
      rw [← hpipeline]
    rw [result_run_cons (.command s' text statements b hreads hscan hdefault), hitems]
    show Except.ok ((s'.withTable s.pipeline.blocks).appendDefault [x]) = _
    rw [htable]
  | cons l' rest ih =>
    obtain ⟨hunfinished, hmore⟩ := hcompletes
    have hnext : (s'.enter (.command text)).Reads l' (s'.enter (.command text))
        (Shell.joinLine text l') := .inl ⟨text, rfl, rfl, rfl⟩
    have hdefault' : (s'.enter (.command text)).pipeline.defaultBlock = .ok b := by
      show s'.pipeline.defaultBlock = .ok b
      rw [hpipeline, hdefault]
    rw [result_run_cons (.unfinished s' text hreads hunfinished), ih hnext hmore hdefault' _ rfl]
    rfl

/-- **Bare commands.** A command that stands alone adds its item to the default block. -/
theorem result_run_command {s : State} {b : Block} {line : String} {o : Outline}
    (hmode : s.mode = .idle) (hpending : s.pending = []) (h : ReadsAs known line o)
    (hclassify : ∀ l ∈ (physicalLines line).head?, classify l = .command)
    (hdefault : s.pipeline.defaultBlock = .ok b) (k : Nat) :
    (s.run c file k (physicalLines line)).result = .ok (s.appendDefault [.ofLine line]) := by
  have hdrop : s.drop = s := by
    unfold drop
    rw [← hpending]
  obtain ⟨first, rest, hlines, hcompletes⟩ := h.joined
  have hfirst : classify first = .command := hclassify first (by rw [← h.lines_eq, hlines]; rfl)
  have hreads : s.Reads first s (Shell.firstLine first) :=
    .inr ⟨hmode, hfirst, hdrop.symm, rfl⟩
  rw [← h.lines_eq, hlines]
  exact result_run_completes hreads hcompletes hdefault h.placed k

end State

end Runbook.Document
