import Runbook.Proofs.ByName
import Runbook.Proofs.Pipeline.Ownership

/-!
# One pipeline behind another

Two pipelines are joined by filling one default block with the items of both and putting the other
blocks one table behind the other. The references of the second pipeline then all move by the same
number (`Block.shift`), so filling its table and filling the joined one go side by side
(`Table.followedBy_push`, `Table.followedBy_modify`).
-/

namespace Runbook

/-! ## Shifted references -/

/-- The action with a reference moved up in the table. -/
def Action.shift (k : Nat) : Action → Action
  | .shell line head args => .shell line head args
  | .call name args => .call name args
  | .block i => .block (i + k)

def Item.shift (k : Nat) (x : Item) : Item :=
  { x with action := x.action.shift k }

def Block.shift (k : Nat) (b : Block) : Block :=
  { b with items := b.items.map (.shift k) }

def Procedure.shift (k : Nat) (x : Procedure) : Procedure :=
  { x with blockIndex := x.blockIndex + k }

def Position.shift (n : Nat) (p : Position) : Position :=
  { p with line := n + p.line }

@[simp] theorem Item.shift_block (k i : Nat) : (Item.block i).shift k = .block (i + k) := rfl

@[simp] theorem Item.shift_shell (k : Nat) (line head : String) (args : List String) :
    (Item.shell line head args).shift k = .shell line head args := rfl

@[simp] theorem Item.shift_ofStatement (k : Nat) (s : Shell.Statement) :
    (Item.ofStatement s).shift k = .ofStatement s := rfl

@[simp] theorem Item.shift_ofStatements (k : Nat) (line : String)
    (statements : List Shell.Statement) :
    (Item.ofStatements line statements).shift k = .ofStatements line statements := by
  unfold Item.ofStatements
  split <;> rfl

@[simp] theorem Item.shift_map_ofStatement (k : Nat) (statements : List Shell.Statement) :
    (statements.map Item.ofStatement).map (Item.shift k) = statements.map Item.ofStatement := by
  rw [List.map_map]
  exact List.map_congr_left fun s _ => Item.shift_ofStatement k s

@[simp] theorem Block.shift_items (k : Nat) (b : Block) :
    (b.shift k).items = b.items.map (.shift k) := rfl

@[simp] theorem Block.shift_parallel (k : Nat) (b : Block) : (b.shift k).parallel = b.parallel :=
  rfl

@[simp] theorem Item.shift_zero (x : Item) : x.shift 0 = x := by
  obtain ⟨label, action⟩ := x
  cases action <;> rfl

@[simp] theorem Item.map_shift_zero (xs : List Item) : xs.map (.shift 0) = xs := by
  rw [List.map_congr_left fun x _ => Item.shift_zero x, List.map_id']

@[simp] theorem Block.shift_zero (b : Block) : b.shift 0 = b := by
  simp [shift]

@[simp] theorem Block.append_nil (b : Block) : b.append [] = b := by
  simp [Block.append]

/-! ## Joined tables -/

namespace Table

def defaultItems (t : Table) : List Item :=
  (t[Pipeline.defaultIndex]?.map Block.items).getD []

/-- By how much the references of a table move when it is put behind another one, whose default
block takes the place of its own. -/
def offset (t : Table) : Nat :=
  t.size - 1

/-- The blocks of a table behind those of another one, the default blocks made one. -/
def followedBy (t u : Table) : Table :=
  t.modify Pipeline.defaultIndex (·.append (u.defaultItems.map (.shift t.offset))) ++
    (u.toList.tail.map (.shift t.offset)).toArray

variable {t u : Table} {i : Nat} {b : Block}

@[simp] theorem offset_modify (t : Table) (i : Nat) (f : Block → Block) :
    offset (t.modify i f) = t.offset := by
  simp [offset]

theorem size_followedBy (ht : 0 < t.size) (hu : 0 < u.size) :
    (t.followedBy u).size = u.size + t.offset := by
  simp only [followedBy, offset, Array.size_append, Array.size_modify, List.size_toArray,
    List.length_map, List.length_tail, Array.length_toList]
  omega

theorem getElem?_followedBy_left (hi : 1 ≤ i) (hb : t[i]? = some b) :
    (t.followedBy u)[i]? = some b := by
  have hlt := (Array.getElem?_eq_some_iff.1 hb).1
  unfold followedBy
  rw [Array.getElem?_append_left (by simpa using hlt), Array.getElem?_modify, if_neg]
  · exact hb
  · unfold Pipeline.defaultIndex
    omega

/-- The blocks of the second table all move by the same number. -/
theorem getElem?_followedBy_right (ht : 0 < t.size) (hi : 1 ≤ i) (hb : u[i]? = some b) :
    (t.followedBy u)[i + t.offset]? = some (b.shift t.offset) := by
  have hsize : i + t.offset - t.size = i - 1 := by
    unfold offset
    omega
  unfold followedBy
  rw [Array.getElem?_append_right (by simp [offset]; omega), Array.size_modify, hsize,
    List.getElem?_toArray, List.getElem?_map, List.getElem?_tail, Nat.sub_add_cancel hi,
    Array.getElem?_toList, hb]
  rfl

theorem getElem?_followedBy_default (ht : t[Pipeline.defaultIndex]? = some b) :
    (t.followedBy u)[Pipeline.defaultIndex]? =
      some (b.append (u.defaultItems.map (.shift t.offset))) := by
  have hlt := (Array.getElem?_eq_some_iff.1 ht).1
  unfold followedBy
  rw [Array.getElem?_append_left (by simpa using hlt), Array.getElem?_modify, if_pos rfl, ht]
  rfl

theorem defaultItems_eq (hb : t[Pipeline.defaultIndex]? = some b) : t.defaultItems = b.items := by
  unfold defaultItems
  rw [hb]
  rfl

theorem defaultItems_followedBy (ht : 0 < t.size) (u : Table) :
    (t.followedBy u).defaultItems = t.defaultItems ++ u.defaultItems.map (.shift t.offset) := by
  have hb : t[Pipeline.defaultIndex]? = some t[0] := Array.getElem?_eq_getElem ht
  rw [defaultItems_eq (getElem?_followedBy_default hb), defaultItems_eq hb]
  rfl

theorem followedBy_empty (t : Table) (parallel : Bool) : t.followedBy #[.empty parallel] = t := by
  apply Array.toList_inj.1
  cases ht : t.toList <;>
    simp [followedBy, defaultItems, Pipeline.defaultIndex, Block.empty, Array.toList_modify, ht]

/-- A block that joins the second table joins the joined one. -/
theorem followedBy_push (hu : 0 < u.size) (b : Block) :
    t.followedBy (u.push b) = (t.followedBy u).push (b.shift t.offset) := by
  have hdefault : defaultItems (u.push b) = u.defaultItems := by
    unfold defaultItems Pipeline.defaultIndex
    rw [Array.getElem?_push, if_neg (Nat.ne_of_lt hu)]
  have htail : (u.push b).toList.tail = u.toList.tail ++ [b] := by
    rw [Array.toList_push, List.tail_append_of_ne_nil]
    exact List.ne_nil_of_length_pos hu
  unfold followedBy
  rw [hdefault, htail, List.map_append, List.map_singleton, ← List.push_toArray, Array.append_push]

/-- Items that join an empty default block come behind those of the first table. -/
theorem followedBy_modify (ht : 0 < t.size) (hu : u[Pipeline.defaultIndex]? = some b)
    (hempty : b.items = []) (xs ys : List Item) :
    followedBy (t.modify Pipeline.defaultIndex (·.append xs))
        (u.modify Pipeline.defaultIndex (·.append ys)) =
      (t.followedBy u).modify Pipeline.defaultIndex
        (·.append (xs ++ ys.map (.shift t.offset))) := by
  obtain ⟨c, cs, htable⟩ := List.exists_cons_of_length_pos (l := t.toList) (by simpa using ht)
  have hsize : 0 < u.size := (Array.getElem?_eq_some_iff.1 hu).1
  obtain ⟨d, ds, hsecond⟩ := List.exists_cons_of_length_pos (l := u.toList) (by simpa using hsize)
  obtain rfl : t = (c :: cs).toArray := by rw [← htable]
  obtain rfl : u = (d :: ds).toArray := by rw [← hsecond]
  obtain rfl : d = b := by simpa [Pipeline.defaultIndex] using hu
  simp [followedBy, defaultItems, offset, Pipeline.defaultIndex, Block.append, hempty]

end Table

/-! ## Commands in a joined table -/

/-- A command becomes the same items in a joined table, but for the place of a new block. -/
theorem Placement.map_shift_itemsIn (line : String) (statements : List Shell.Statement)
    (parallel : Bool) {t u : Table} (ht : 0 < t.size) (hu : 0 < u.size) :
    ((ofCommand line statements parallel).itemsIn u).map (.shift t.offset) =
      (ofCommand line statements parallel).itemsIn (t.followedBy u) := by
  unfold ofCommand
  split
  · simp [itemsIn]
  split
  · simp [itemsIn, Table.size_followedBy ht hu]
  · simp only [itemsIn, Item.shift_map_ofStatement]

/-- A command adds the same block to a joined table. -/
theorem Placement.followedBy_addTo (line : String) (statements : List Shell.Statement)
    (parallel : Bool) {t u : Table} (hu : 0 < u.size) :
    t.followedBy ((ofCommand line statements parallel).addTo u) =
      (ofCommand line statements parallel).addTo (t.followedBy u) := by
  unfold ofCommand
  split
  · rfl
  split
  · simp only [addTo, Table.followedBy_push hu, Block.shift, Item.shift_map_ofStatement]
  · rfl

/-! ## Joined pipelines -/

namespace Pipeline

/-- By how much the references of a pipeline move when it is put behind another one. -/
def offset (p : Pipeline) : Nat :=
  Table.offset p.blocks

/-- The pipeline of a document whose text stands behind that of another one with so many lines. -/
def followedBy (p q : Pipeline) (lines : Nat) : Pipeline where
  blocks := Table.followedBy p.blocks q.blocks
  procedures := p.procedures.overwrite (q.procedures.mapValues fun _ => .shift p.offset)
  declarations := p.declarations.overwrite (q.declarations.mapValues fun _ => .shift lines)

theorem get?_procedures_followedBy (p q : Pipeline) (lines : Nat) (name : String) :
    (p.followedBy q lines).procedures.get? name =
      ((q.procedures.get? name).map (.shift p.offset)).or (p.procedures.get? name) := by
  unfold followedBy
  rw [ByName.get?_overwrite, ByName.get?_mapValues]

theorem get?_declarations_followedBy (p q : Pipeline) (lines : Nat) (name : String) :
    (p.followedBy q lines).declarations.get? name =
      ((q.declarations.get? name).map (.shift lines)).or (p.declarations.get? name) := by
  unfold followedBy
  rw [ByName.get?_overwrite, ByName.get?_mapValues]

theorem contains_followedBy (p q : Pipeline) (lines : Nat) (name : String) :
    (p.followedBy q lines).procedures.contains name =
      (p.procedures.contains name || q.procedures.contains name) := by
  unfold followedBy
  rw [ByName.contains_overwrite, ByName.contains_mapValues]

theorem followedBy_empty (p : Pipeline) (parallel : Bool) (lines : Nat) :
    p.followedBy (.empty parallel) lines = p := by
  simp only [followedBy, empty, Table.followedBy_empty, ByName.mapValues_empty,
    ByName.overwrite_empty]

end Pipeline

end Runbook
