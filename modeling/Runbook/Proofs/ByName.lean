import Mathlib.Data.List.Sort
import Runbook.ByName

/-!
# Directories one over the other

A directory is what its names stand for (`ByName.ext_get?`), so two ways to fill directories are
compared name by name. `overwrite` lays one directory over another one: where both have a name, the
upper one counts.
-/

namespace Runbook.ByName

variable {α β : Type} {d e : ByName α} {name : String} {v : α}

/-! ## What names stand for -/

theorem mem_entries_iff : (name, v) ∈ d.entries ↔ d.get? name = some v := by
  obtain ⟨es, h⟩ := d
  induction es with
  | nil => simp [get?]
  | cons x es ih =>
    obtain ⟨hx, hes⟩ := List.pairwise_cons.1 h
    have ih := ih hes
    simp only [get?] at ih ⊢
    by_cases hname : x.1 = name
    · subst hname
      have hnot : (x.1, v) ∉ es := fun hmem => String.lt_irrefl _ (hx (x.1, v) hmem)
      simp [hnot, Prod.ext_iff, eq_comm]
    · have hne : (name, v) ≠ x := fun heq => hname (heq ▸ rfl)
      rw [List.find?_cons_of_neg (by simpa using hname), ← ih, List.mem_cons, or_iff_right hne]

theorem nodup_entries (d : ByName α) : d.entries.Nodup := by
  apply d.sorted.imp
  rintro a _ hlt rfl
  exact String.lt_irrefl _ hlt

theorem ext_get? (h : ∀ name, d.get? name = e.get? name) : d = e := by
  have hperm : d.entries.Perm e.entries := by
    rw [List.perm_ext_iff_of_nodup d.nodup_entries e.nodup_entries]
    rintro ⟨name, v⟩
    rw [mem_entries_iff, mem_entries_iff, h]
  have hentries : d.entries = e.entries := by
    apply hperm.eq_of_pairwise (fun a b _ _ hab hba => ?_) d.sorted e.sorted
    exact absurd (String.lt_trans hab hba) (String.lt_irrefl _)
  obtain ⟨des, _⟩ := d
  obtain ⟨ees, _⟩ := e
  obtain rfl : des = ees := hentries
  rfl

theorem get?_insert (d : ByName α) (name other : String) (v : α) :
    (d.insert name v).get? other = if other = name then some v else d.get? other := by
  split
  · next heq => rw [heq, get?_insert_self]
  · next hne => exact get?_insert_of_ne d v hne

theorem contains_iff : d.contains name = true ↔ ∃ v, d.get? name = some v := by
  rw [contains_eq_isSome, Option.isSome_iff_exists]

theorem contains_iff_mem_names : d.contains name = true ↔ name ∈ d.names := by
  simp [contains, names]

theorem contains_eq_false_iff : d.contains name = false ↔ d.get? name = none := by
  rw [contains_eq_isSome, Option.isSome_eq_false_iff, Option.isNone_iff_eq_none]

/-! ## Values changed one by one -/

/-- The directory with other values under the same names. -/
def mapValues (f : String → α → β) (d : ByName α) : ByName β where
  entries := d.entries.map fun e => (e.1, f e.1 e.2)
  sorted := List.pairwise_map.2 d.sorted

@[simp] theorem names_mapValues (f : String → α → β) (d : ByName α) :
    (d.mapValues f).names = d.names := by
  unfold names mapValues
  rw [List.map_map]
  rfl

@[simp] theorem get?_mapValues (f : String → α → β) (d : ByName α) (name : String) :
    (d.mapValues f).get? name = (d.get? name).map (f name) := by
  obtain ⟨es, h⟩ := d
  unfold get? mapValues
  induction es with
  | nil => rfl
  | cons e es ih =>
    by_cases hname : e.1 = name
    · simp [hname]
    · simpa [hname] using ih (List.pairwise_cons.1 h).2

@[simp] theorem mapValues_empty (f : String → α → β) : (empty : ByName α).mapValues f = empty := rfl

theorem mapValues_insert (f : String → α → β) (d : ByName α) (name : String) (v : α) :
    (d.insert name v).mapValues f = (d.mapValues f).insert name (f name v) := by
  apply ext_get?
  intro other
  rw [get?_mapValues, get?_insert, get?_insert, get?_mapValues]
  split
  · next heq => rw [heq, Option.map_some]
  · rfl

/-- Directories with the same names list them in the same order. -/
theorem names_eq_of_contains {e : ByName β} (h : ∀ name, d.contains name = e.contains name) :
    d.names = e.names := by
  have hunits : d.mapValues (fun _ _ => ()) = e.mapValues (fun _ _ => ()) := by
    apply ext_get?
    intro name
    have hname := h name
    rw [contains_eq_isSome, contains_eq_isSome] at hname
    rw [get?_mapValues, get?_mapValues]
    cases hd : d.get? name <;> cases he : e.get? name <;> simp_all
  rw [← names_mapValues (fun _ _ => ()) d, hunits, names_mapValues]

/-! ## One over the other -/

/-- The directory with the entries of another one filed in turn. -/
def overwrite (d e : ByName α) : ByName α :=
  e.entries.foldl (fun d x => d.insert x.1 x.2) d

/-- A name stands for what the upper directory has for it, else for what the lower one has. -/
@[simp] theorem get?_overwrite (d e : ByName α) (name : String) :
    (d.overwrite e).get? name = (e.get? name).or (d.get? name) := by
  obtain ⟨es, h⟩ := e
  unfold overwrite
  dsimp only
  induction es generalizing d with
  | nil => rfl
  | cons x es ih =>
    obtain ⟨hx, hes⟩ := List.pairwise_cons.1 h
    rw [List.foldl_cons, ih _ hes, get?_insert]
    by_cases hname : x.1 = name
    · have hnot : es.find? (fun e => decide (e.1 = name)) = none := by
        rw [List.find?_eq_none]
        rintro e he
        rw [← hname, decide_eq_true_eq]
        exact fun heq => String.lt_irrefl _ (heq ▸ hx e he)
      simp [get?, hname, hnot]
    · rw [if_neg (Ne.symm hname)]
      unfold get?
      rw [List.find?_cons_of_neg (by simpa using hname)]

theorem overwrite_insert (d e : ByName α) (name : String) (v : α) :
    d.overwrite (e.insert name v) = (d.overwrite e).insert name v := by
  apply ext_get?
  intro other
  rw [get?_overwrite, get?_insert, get?_insert, get?_overwrite]
  split <;> rfl

@[simp] theorem overwrite_empty (d : ByName α) : d.overwrite empty = d := rfl

@[simp] theorem empty_overwrite (e : ByName α) : empty.overwrite e = e := by
  apply ext_get?
  intro name
  rw [get?_overwrite, get?_empty, Option.or_none]

theorem contains_overwrite (d e : ByName α) (name : String) :
    (d.overwrite e).contains name = (d.contains name || e.contains name) := by
  rw [contains_eq_isSome, contains_eq_isSome, contains_eq_isSome, get?_overwrite, Option.isSome_or,
    Bool.or_comm]

@[simp] theorem contains_mapValues (f : String → α → β) (d : ByName α) (name : String) :
    (d.mapValues f).contains name = d.contains name := by
  rw [contains_eq_isSome, contains_eq_isSome, get?_mapValues, Option.isSome_map]

theorem contains_insert (d : ByName α) (name other : String) (v : α) :
    (d.insert name v).contains other = (decide (other = name) || d.contains other) := by
  rw [contains_eq_isSome, contains_eq_isSome, get?_insert]
  split <;> simp [*]

/-! ## Entries filed in turn -/

/-- The directory with some entries filed in turn: of two with one name the later counts. -/
def insertAll (d : ByName α) (es : List (String × α)) : ByName α :=
  es.foldl (fun d e => d.insert e.1 e.2) d

theorem insertAll_empty (es : List (String × α)) : empty.insertAll es = ofList es := rfl

theorem insertAll_append (d : ByName α) (es fs : List (String × α)) :
    d.insertAll (es ++ fs) = (d.insertAll es).insertAll fs :=
  List.foldl_append

theorem get?_insertAll_of_not_mem (d : ByName α) {es : List (String × α)}
    (h : name ∉ es.map (·.1)) : (d.insertAll es).get? name = d.get? name := by
  induction es generalizing d with
  | nil => rfl
  | cons e es ih =>
    obtain ⟨hne, hes⟩ := not_or.1 (mt List.mem_cons.2 h)
    exact (ih (d.insert e.1 e.2) hes).trans (d.get?_insert_of_ne e.2 hne)

theorem nodup_names (d : ByName α) : d.names.Nodup := by
  refine List.pairwise_map.2 (d.sorted.imp ?_)
  intro a b hlt heq
  rw [heq] at hlt
  exact String.lt_irrefl _ hlt

theorem entries_insertAll_perm {es : List (String × α)} (hdistinct : (es.map (·.1)).Nodup)
    (hnew : ∀ e ∈ es, d.contains e.1 = false) :
    (d.insertAll es).entries.Perm (d.entries ++ es) := by
  induction es generalizing d with
  | nil =>
    rw [List.append_nil]
    exact .refl _
  | cons e es ih =>
    obtain ⟨hfirst, hrest⟩ := List.nodup_cons.1 hdistinct
    obtain ⟨he, hes⟩ := List.forall_mem_cons.1 hnew
    have hnew' : ∀ x ∈ es, (d.insert e.1 e.2).contains x.1 = false := by
      intro x hx
      have hne : x.1 ≠ e.1 := fun heq => hfirst (List.mem_map.2 ⟨x, hx, heq⟩)
      rw [contains_insert, hes x hx, decide_eq_false hne, Bool.or_false]
    have hinsert := (d.entries_insert_perm e.2 he).append_right es
    exact (ih hrest hnew').trans (hinsert.trans List.perm_middle.symm)

/-- A directory is filled with its own entries in any order. -/
theorem ofList_of_perm {es : List (String × α)} (h : es.Perm d.entries) : ofList es = d := by
  have hnames : (es.map (·.1)).Perm d.names := h.map (·.1)
  have hdistinct := hnames.nodup_iff.2 d.nodup_names
  have hfilled : (ofList es).entries.Perm d.entries :=
    (entries_insertAll_perm (d := empty) hdistinct fun _ _ => rfl).trans h
  apply ext_get?
  intro name
  ext v
  rw [← mem_entries_iff, ← mem_entries_iff, hfilled.mem_iff]

end Runbook.ByName
