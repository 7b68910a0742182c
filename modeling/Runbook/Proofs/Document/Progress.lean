import Mathlib.Data.List.Forall2
import Runbook.Proofs.Document.Entry
import Runbook.Proofs.Document.Rereadable

/-!
# Reading the procedures of a written pipeline

Procedures are written in name order with an empty row between two entries. While they are read, the
load holds a procedure for each one that was written so far, with its attributes and a block that
stands for its body (`Progress`); `exists_progress` takes it over all of them.
-/

namespace Runbook.Document

open Shell (posix)
open Text (physicalLines)

/-- A procedure that was read for one that was written. -/
def StandsFor (p : Pipeline) (t : Table) (e e' : String × Procedure) : Prop :=
  e'.1 = e.1 ∧ e'.2.attributes = e.2.attributes ∧
    ∃ o, p.outline e.2.blockIndex = .ok o ∧
      Represents p.procedures.contains t o (.block e'.2.blockIndex)

/-- The load between two entries when the procedures in `done` are read. -/
structure Progress (p : Pipeline) (done : List (String × Procedure)) (s : State) : Prop where
  mode : s.mode = .idle
  pending : s.pending = []
  items : s.items = []
  assigned : s.assigned = .empty
  nonempty : 0 < s.pipeline.blocks.size
  settled : Table.Settled p.procedures.contains s.pipeline.blocks
  declared : ∀ name, (∀ e ∈ done, e.1 ≠ name) → s.pipeline.declarations.get? name = none
  procedures : List.Forall₂ (StandsFor p s.pipeline.blocks) done s.pipeline.procedures.entries

/-! ## Rows between entries -/

theorem lines_intercalate_cons {c : List String} {cs : List (List String)} (h : cs ≠ []) :
    (List.intercalate [""] (c :: cs)).flatMap physicalLines =
      c.flatMap physicalLines ++ "" :: (List.intercalate [""] cs).flatMap physicalLines := by
  cases cs with
  | nil => exact absurd rfl h
  | cons d cs =>
    have hblank : physicalLines "" = [""] := by decide
    rw [List.intercalate_cons_cons, List.append_assoc, List.singleton_append, List.flatMap_append,
      List.flatMap_cons, hblank, List.singleton_append]

/-- Behind an entry the next one is read, past the empty line between them. -/
theorem State.exists_run_entry {c : Setting} {file : String} {s t : State} {k : Nat}
    {entry : List String} (h : (s.run c file k (entry.flatMap physicalLines)).result = .ok t)
    (hmode : t.mode = .idle) (entries : List (List String)) :
    ∃ k',
      (s.run c file k
        ((List.intercalate [""] (entry :: entries)).flatMap physicalLines)).result =
        (t.run c file k' ((List.intercalate [""] entries).flatMap physicalLines)).result := by
  by_cases hempty : entries = []
  · refine ⟨k, ?_⟩
    rw [hempty, List.intercalate_singleton, h]
    rfl
  · rw [lines_intercalate_cons hempty, result_run_append h, result_run_blank hmode]
    exact ⟨_, rfl⟩

/-! ## Procedures -/

theorem StandsFor.mono {p : Pipeline} {t t' : Table} (h : t.Extends t')
    {e e' : String × Procedure} (he : StandsFor p t e e') : StandsFor p t' e e' := by
  obtain ⟨hname, hattributes, o, ho, hrep⟩ := he
  exact ⟨hname, hattributes, o, ho, hrep.mono h⟩

theorem exists_of_standsFor {p : Pipeline} {t : Table} {es es' : List (String × Procedure)}
    (h : List.Forall₂ (StandsFor p t) es es') : ∀ e' ∈ es', ∃ e ∈ es, e.1 = e'.1 := by
  induction h with
  | nil => simp
  | cons he _ ih =>
    refine List.forall_mem_cons.2 ⟨⟨_, List.mem_cons_self, he.1.symm⟩, fun e' he' => ?_⟩
    obtain ⟨e, hmem, hname⟩ := ih e' he'
    exact ⟨e, List.mem_cons_of_mem _ hmem, hname⟩

variable {c : Setting} {p : Pipeline}

theorem procedureRows_ok {x : Procedure} {rows : List String}
    (h : p.procedureRows posix x = .ok rows) :
    ∃ o, p.outline x.blockIndex = .ok o ∧
      rows = x.attributes.map Pipeline.attributeRow ++
        (o.rows posix "").modifyHead (x.name ++ "() " ++ ·) := by
  unfold Pipeline.procedureRows at h
  cases ho : p.outline x.blockIndex with
  | error e =>
    rw [ho] at h
    cases h
  | ok o =>
    rw [ho] at h
    exact ⟨o, rfl, (Except.ok.inj h).symm⟩

theorem Progress.exists_next (file : String) (hp : p.Rereadable)
    {done : List (String × Procedure)} {s : State} (h : Progress p done s)
    {e : String × Procedure} (he : e ∈ p.procedures.entries)
    (hlast : ∀ e' ∈ done, e'.1 < e.1) {rows : List String}
    (hrows : p.procedureRows posix e.2 = .ok rows) (k : Nat) :
    ∃ t, Progress p (done ++ [e]) t ∧
      (s.run c file k (rows.flatMap physicalLines)).result = .ok t := by
  have hvalue : e.2 ∈ p.procedures.values := List.mem_map_of_mem he
  obtain ⟨hkey, hname⟩ := hp.names e he
  obtain ⟨o, ho, rfl⟩ := procedureRows_ok hrows
  obtain ⟨parallel, members, hgroup, hmembers⟩ := hp.exists_outline (hp.roots e.2 hvalue)
  obtain rfl := Except.ok.inj (ho.symm.trans hgroup)
  have hread : ∀ e' ∈ s.pipeline.procedures.entries, e'.1 < e.2.name := by
    intro e' he'
    obtain ⟨d, hd, hdname⟩ := exists_of_standsFor h.procedures e' he'
    rw [← hdname, hkey]
    exact hlast d hd
  have hne : ∀ e' : String × Procedure, e'.1 < e.2.name → e'.1 ≠ e.2.name := by
    intro e' hlt heq
    rw [heq] at hlt
    exact String.lt_irrefl _ hlt
  obtain ⟨b, t, pos, hbuilt, hrun⟩ := State.exists_run_procedure (c := c) file parallel h.mode
    h.pending (hkey ▸ hname) (hp.attributes e.2 hvalue) hmembers h.nonempty h.settled
    (h.declared _ fun e' he' => hne e' (hkey ▸ hlast e' he'))
    (ByName.contains_eq_false fun e' he' => hne e' (hread e' he')) k
  have hgrows := hbuilt.grows.trans (Table.Extends.push t b)
  refine ⟨_, ?_, hrun⟩
  constructor
  · exact rfl
  · exact h.pending
  · exact h.items
  · exact h.assigned
  · simp
  · exact hbuilt.tableSettled.push hbuilt.settled
  · intro name hdone
    rw [ByName.get?_insert_of_ne]
    · apply h.declared
      intro e' he'
      exact hdone e' (List.mem_append_left _ he')
    · rw [hkey]
      exact (hdone e (by simp)).symm
  · rw [ByName.entries_insert_of_gt _ _ hread]
    refine List.rel_append (h.procedures.imp fun _ _ => StandsFor.mono hgrows) ?_
    exact .cons ⟨hkey, rfl, _, hgroup, hbuilt.represents_block⟩ .nil

/-- **Procedures.** The rows of procedures in name order are read one after the other, whatever
entries follow. -/
theorem Progress.exists_progress (file : String) (hp : p.Rereadable)
    {es : List (String × Procedure)} :
    ∀ {done : List (String × Procedure)} {s : State}, Progress p done s →
    (∀ e ∈ es, e ∈ p.procedures.entries) → (done ++ es).Pairwise (fun a b => a.1 < b.1) →
    ∀ {chunks : List (List String)}, (es.map (·.2)).mapM (p.procedureRows posix) = .ok chunks →
    ∀ (tail : List (List String)) (k : Nat), ∃ t k', Progress p (done ++ es) t ∧
      (s.run c file k ((List.intercalate [""] (chunks ++ tail)).flatMap physicalLines)).result =
        (t.run c file k' ((List.intercalate [""] tail).flatMap physicalLines)).result := by
  induction es with
  | nil =>
    intro done s h _ _ chunks hchunks tail k
    obtain rfl := Except.ok.inj hchunks
    refine ⟨s, k, ?_, rfl⟩
    rw [List.append_nil]
    exact h
  | cons e es ih =>
    intro done s h hes hsorted chunks hchunks tail k
    obtain ⟨he, hes⟩ := List.forall_mem_cons.1 hes
    obtain ⟨rows, more, hrows, hmore, rfl⟩ := mapM_cons_ok.1 hchunks
    have hlast : ∀ e' ∈ done, e'.1 < e.1 := by
      intro e' he'
      exact (List.pairwise_append.1 hsorted).2.2 e' he' e List.mem_cons_self
    obtain ⟨t, ht, hrun⟩ := h.exists_next (c := c) file hp he hlast hrows k
    rw [List.append_cons] at hsorted ⊢
    obtain ⟨k', hentry⟩ := State.exists_run_entry hrun ht.mode (more ++ tail)
    rw [List.cons_append, hentry]
    exact ih ht hes hsorted hmore tail k'

end Runbook.Document
