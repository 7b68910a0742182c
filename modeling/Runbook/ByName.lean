/-!
# Values filed under names

A directory keeps one value for each name, in name order. Names are ordered by code points, which
is also the order of their UTF-8 bytes. The order is a field of the type, so that two directories
with the same entries are equal however they were filled.
-/

namespace Runbook

/-- The entry list in which `name` has the value `v`. -/
def insertEntry {α : Type u} (name : String) (v : α) : List (String × α) → List (String × α)
  | [] => [(name, v)]
  | e :: es =>
    if name < e.1 then (name, v) :: e :: es
    else if name = e.1 then (name, v) :: es
    else e :: insertEntry name v es

theorem mem_insertEntry {α : Type u} {name : String} {v : α} {es : List (String × α)}
    {x : String × α} (h : x ∈ insertEntry name v es) : x = (name, v) ∨ x ∈ es := by
  induction es with
  | nil => simpa [insertEntry] using h
  | cons e es ih =>
    unfold insertEntry at h
    split at h
    · simpa using h
    · split at h
      · rcases List.mem_cons.1 h with h | h
        · exact .inl h
        · exact .inr (List.mem_cons_of_mem _ h)
      · rcases List.mem_cons.1 h with h | h
        · exact .inr (h ▸ List.mem_cons_self)
        · exact (ih h).imp_right (List.mem_cons_of_mem _)

theorem pairwise_insertEntry {α : Type u} (name : String) (v : α) {es : List (String × α)}
    (h : es.Pairwise (fun a b => a.1 < b.1)) :
    (insertEntry name v es).Pairwise (fun a b => a.1 < b.1) := by
  induction es with
  | nil => simp [insertEntry]
  | cons e es ih =>
    obtain ⟨he, hes⟩ := List.pairwise_cons.1 h
    unfold insertEntry
    split
    · next hlt =>
      refine List.pairwise_cons.2 ⟨fun x hx => ?_, h⟩
      rcases List.mem_cons.1 hx with rfl | hx
      · exact hlt
      · exact String.lt_trans hlt (he x hx)
    · next hnot =>
      split
      · next heq => exact List.pairwise_cons.2 ⟨fun x hx => heq ▸ he x hx, hes⟩
      · next hne =>
        refine List.pairwise_cons.2 ⟨fun x hx => ?_, ih hes⟩
        rcases mem_insertEntry hx with rfl | hx
        · exact Decidable.byContradiction fun h' =>
            hne (String.le_antisymm (String.not_lt.1 h') (String.not_lt.1 hnot))
        · exact he x hx

/-- A directory: entries in strict name order. -/
structure ByName (α : Type u) where
  entries : List (String × α)
  sorted : entries.Pairwise (fun a b => a.1 < b.1)
  deriving DecidableEq

namespace ByName

variable {α : Type u}

def empty : ByName α := ⟨[], .nil⟩

instance : Inhabited (ByName α) := ⟨empty⟩

def get? (d : ByName α) (name : String) : Option α :=
  (d.entries.find? (·.1 = name)).map (·.2)

def contains (d : ByName α) (name : String) : Bool :=
  d.entries.any (·.1 = name)

/-- Files a value, in place of the one that the name had before. -/
def insert (d : ByName α) (name : String) (v : α) : ByName α :=
  ⟨insertEntry name v d.entries, pairwise_insertEntry name v d.sorted⟩

def names (d : ByName α) : List String :=
  d.entries.map (·.1)

def values (d : ByName α) : List α :=
  d.entries.map (·.2)

/-- The directory of some entries, filed in turn: of two with one name the later counts. -/
def ofList (es : List (String × α)) : ByName α :=
  es.foldl (fun d e => d.insert e.1 e.2) empty

theorem contains_eq_isSome (d : ByName α) (name : String) :
    d.contains name = (d.get? name).isSome := by
  rw [Bool.eq_iff_iff]
  simp [contains, get?, Option.isSome_map, List.find?_isSome]

@[simp] theorem get?_empty (name : String) : (empty : ByName α).get? name = none := rfl

@[simp] theorem get?_insert_self (d : ByName α) (name : String) (v : α) :
    (d.insert name v).get? name = some v := by
  obtain ⟨es, h⟩ := d
  induction es with
  | nil => simp [get?, insert, insertEntry]
  | cons e es ih =>
    have := ih (List.pairwise_cons.1 h).2
    simp only [get?, insert, insertEntry] at this ⊢
    split
    · simp
    · split
      · simp
      · next hne => rw [List.find?_cons_of_neg (by simpa using fun h => hne h.symm), this]

theorem entries_insert_perm (d : ByName α) {name : String} (v : α)
    (hnew : d.contains name = false) :
    (d.insert name v).entries.Perm ((name, v) :: d.entries) := by
  obtain ⟨es, h⟩ := d
  simp only [contains, insert] at hnew ⊢
  clear h
  induction es with
  | nil => exact .refl _
  | cons e es ih =>
    rw [List.any_cons, Bool.or_eq_false_iff, decide_eq_false_iff_not] at hnew
    unfold insertEntry
    split
    · exact .refl _
    · split
      · next heq => exact absurd heq.symm hnew.1
      · exact ((ih hnew.2).cons e).trans (.swap (name, v) e es)

theorem entries_insert_of_gt (d : ByName α) {name : String} (v : α)
    (hlast : ∀ e ∈ d.entries, e.1 < name) :
    (d.insert name v).entries = d.entries ++ [(name, v)] := by
  obtain ⟨es, h⟩ := d
  simp only [insert] at hlast ⊢
  clear h
  induction es with
  | nil => rfl
  | cons e es ih =>
    obtain ⟨he, hes⟩ := List.forall_mem_cons.1 hlast
    have hnot : ¬name < e.1 := fun h => String.lt_irrefl _ (String.lt_trans he h)
    have hne : name ≠ e.1 := by
      rintro rfl
      exact String.lt_irrefl _ he
    rw [insertEntry, if_neg hnot, if_neg hne, ih hes, List.cons_append]

theorem contains_eq_false {d : ByName α} {name : String} (h : ∀ e ∈ d.entries, e.1 ≠ name) :
    d.contains name = false := by
  unfold contains
  rw [List.any_eq_false]
  intro e he
  simpa using h e he

theorem get?_insert_of_ne (d : ByName α) {name other : String} (v : α) (hne : other ≠ name) :
    (d.insert name v).get? other = d.get? other := by
  obtain ⟨es, h⟩ := d
  induction es with
  | nil => simp [get?, insert, insertEntry, hne.symm]
  | cons e es ih =>
    have := ih (List.pairwise_cons.1 h).2
    simp only [get?, insert, insertEntry] at this ⊢
    split
    · rw [List.find?_cons_of_neg (by simpa using hne.symm)]
    · split
      · next heq =>
        rw [List.find?_cons_of_neg (by simpa using hne.symm),
          List.find?_cons_of_neg (by simpa [← heq] using hne.symm)]
      · by_cases he : e.1 = other
        · simp [he]
        · rw [List.find?_cons_of_neg (by simpa using he),
            List.find?_cons_of_neg (by simpa using he), this]

end ByName

end Runbook
