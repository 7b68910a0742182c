import Mathlib.Data.List.Perm.Basic
import Runbook.Data.Model
import Runbook.Proofs.ByName

/-!
# Pipelines that come back from data

What a part of a pipeline is encoded as is decoded to that part (`Undoes`): each reader undoes its
writer when the readers of the parts undo theirs, and so a whole pipeline comes back, whatever its
indexes, names and arguments are (`decodePipeline?_encodePipeline`). On the way another program may
have written the fields of an object in another order (`Value.Rearranges`).
-/

namespace Runbook.Data

/-! ## Fields in another order -/

namespace Value

mutual

/-- The same value but for the order of the fields in objects. -/
inductive Rearranges : Value → Value → Prop
  | null : Rearranges .null .null
  | bool (b : Bool) : Rearranges (.bool b) (.bool b)
  | natural (n : Nat) : Rearranges (.natural n) (.natural n)
  | number : Rearranges .number .number
  | string (s : String) : Rearranges (.string s) (.string s)
  | array {xs ys : List Value} (h : RearrangesAll xs ys) : Rearranges (.array xs) (.array ys)
  | object {fields moved fields' : List (String × Value)} (hperm : fields.Perm moved)
    (h : RearrangesFields moved fields') : Rearranges (.object fields) (.object fields')

/-- Values that are the same one by one. -/
inductive RearrangesAll : List Value → List Value → Prop
  | nil : RearrangesAll [] []
  | cons {v w : Value} {vs ws : List Value} (h : Rearranges v w) (hrest : RearrangesAll vs ws) :
    RearrangesAll (v :: vs) (w :: ws)

/-- Fields of the same names whose values are the same one by one. -/
inductive RearrangesFields : List (String × Value) → List (String × Value) → Prop
  | nil : RearrangesFields [] []
  | cons (name : String) {v w : Value} {fs gs : List (String × Value)} (h : Rearranges v w)
    (hrest : RearrangesFields fs gs) : RearrangesFields ((name, v) :: fs) ((name, w) :: gs)

end

mutual

theorem Rearranges.refl : (v : Value) → v.Rearranges v
  | .null => .null
  | .bool b => .bool b
  | .natural n => .natural n
  | .number => .number
  | .string s => .string s
  | .array xs => .array (RearrangesAll.refl xs)
  | .object fields => .object (.refl fields) (RearrangesFields.refl fields)

theorem RearrangesAll.refl : (vs : List Value) → RearrangesAll vs vs
  | [] => .nil
  | v :: vs => .cons (Rearranges.refl v) (RearrangesAll.refl vs)

theorem RearrangesFields.refl : (fs : List (String × Value)) → RearrangesFields fs fs
  | [] => .nil
  | (name, v) :: fs => .cons name (Rearranges.refl v) (RearrangesFields.refl fs)

end

variable {v w : Value} {name : String} {fields moved : List (String × Value)}

theorem RearrangesFields.names_eq (h : RearrangesFields moved fields) :
    moved.map (·.1) = fields.map (·.1) := by
  induction fields generalizing moved with
  | nil =>
    cases h
    rfl
  | cons f fields ih =>
    cases h with
    | cons name _ hrest => rw [List.map_cons, List.map_cons, ih hrest]

theorem RearrangesFields.exists_mem (h : RearrangesFields moved fields) (hmem : (name, w) ∈ fields) :
    ∃ u, (name, u) ∈ moved ∧ u.Rearranges w := by
  induction fields generalizing moved with
  | nil => cases hmem
  | cons f fields ih =>
    cases h with
    | @cons name' v' w' moved' _ h hrest =>
      rcases List.mem_cons.1 hmem with heq | hmem
      · obtain ⟨rfl, rfl⟩ := Prod.mk.inj heq
        exact ⟨v', List.mem_cons_self, h⟩
      · obtain ⟨u, hu, hsame⟩ := ih hrest hmem
        exact ⟨u, List.mem_cons_of_mem _ hu, hsame⟩

/-- Of fields with distinct names the one with a name is found wherever it stands. -/
theorem find?_of_mem (hnames : (fields.map (·.1)).Nodup) (hmem : (name, w) ∈ fields) :
    fields.find? (·.1 = name) = some (name, w) := by
  induction fields with
  | nil => cases hmem
  | cons f fields ih =>
    obtain ⟨hfirst, hrest⟩ := List.nodup_cons.1 hnames
    rcases List.mem_cons.1 hmem with rfl | hmem
    · exact List.find?_cons_of_pos (by simp)
    · have hne : f.1 ≠ name := fun heq => hfirst (List.mem_map.2 ⟨_, hmem, heq.symm⟩)
      rw [List.find?_cons_of_neg (by simpa using hne), ih hrest hmem]

theorem Rearranges.exists_field (h : v.Rearranges (.object fields))
    (hnames : (fields.map (·.1)).Nodup) (hmem : (name, w) ∈ fields) :
    ∃ u, v.field? name = some u ∧ u.Rearranges w := by
  cases h with
  | @object fields' moved _ hperm h =>
    obtain ⟨u, hu, hsame⟩ := h.exists_mem hmem
    have hdistinct : (fields'.map (·.1)).Nodup := by
      rw [(hperm.map (·.1)).nodup_iff, h.names_eq]
      exact hnames
    refine ⟨u, ?_, hsame⟩
    show (fields'.find? (·.1 = name)).map (·.2) = some u
    rw [find?_of_mem hdistinct (hperm.mem_iff.2 hu)]
    rfl

theorem Rearranges.field?_eq_none (name : String) (h : v.Rearranges (.object fields))
    (hnot : name ∉ fields.map (·.1)) : v.field? name = none := by
  cases h with
  | @object fields' moved _ hperm h =>
    have hnone : fields'.find? (·.1 = name) = none := by
      rw [List.find?_eq_none]
      intro f hf hname
      apply hnot
      rw [← h.names_eq, ← (hperm.map (·.1)).mem_iff, List.mem_map]
      exact ⟨f, hf, of_decide_eq_true hname⟩
    show (fields'.find? (·.1 = name)).map (·.2) = none
    rw [hnone]
    rfl

end Value

/-! ## Readers that undo writers -/

/-- The reader gives back what the writer was given, in whatever order the fields come. -/
def Undoes {α : Type} (decode : Value → Option α) (encode : α → Value) : Prop :=
  ∀ x v, v.Rearranges (encode x) → decode v = some x

section Undoes

variable {α : Type} {decode : Value → Option α} {encode : α → Value} {v : Value}
  {fields : List (String × Value)} {x : α}

theorem Undoes.exists_field (hundoes : Undoes decode encode) (name : String)
    (h : v.Rearranges (.object fields)) (hnames : (fields.map (·.1)).Nodup)
    (hmem : (name, encode x) ∈ fields) :
    ∃ u, v.field? name = some u ∧ decode u = some x := by
  obtain ⟨u, hu, hsame⟩ := h.exists_field hnames hmem
  exact ⟨u, hu, hundoes x u hsame⟩

theorem undoes_string : Undoes Value.string? .string := by
  intro s v h
  cases h
  rfl

theorem undoes_bool : Undoes Value.bool? .bool := by
  intro b v h
  cases h
  rfl

theorem undoes_natural : Undoes Value.natural? .natural := by
  intro n v h
  cases h
  rfl

theorem Undoes.list (hundoes : Undoes decode encode) :
    Undoes (·.listOf? decode) (fun xs => .array (xs.map encode)) := by
  intro xs v h
  cases h with
  | @array vs _ h =>
    show vs.mapM decode = some xs
    induction xs generalizing vs with
    | nil =>
      cases h
      rfl
    | cons x xs ih =>
      cases h with
      | cons h hrest =>
        rw [List.mapM_cons, hundoes x _ h, ih hrest]
        rfl

theorem undoes_pair :
    Undoes decodePair? (fun e : String × String => .array [.string e.1, .string e.2]) := by
  rintro ⟨a, b⟩ v h
  cases h with
  | array h =>
    cases h with
    | cons ha h =>
      cases h with
      | cons hb h =>
        cases ha
        cases hb
        cases h
        rfl

theorem undoes_pairs : Undoes decodePairs? encodePairs :=
  undoes_pair.list

/-- Entries that a reader gives back one by one, in the order in which they come. -/
theorem mapM_of_forall₂ {β : Type} {f : β → Option α} {ys : List β} {xs : List α}
    (h : List.Forall₂ (fun y x => f y = some x) ys xs) : ys.mapM f = some xs := by
  induction h with
  | nil => rfl
  | cons hfirst _ ih =>
    rw [List.mapM_cons, hfirst, ih]
    rfl

theorem Undoes.forall₂_fields (hundoes : Undoes decode encode) {es : List (String × α)}
    {moved : List (String × Value)}
    (h : Value.RearrangesFields moved (es.map fun e => (e.1, encode e.2))) :
    List.Forall₂ (fun f e => (decode f.2).map (f.1, ·) = some e) moved es := by
  induction es generalizing moved with
  | nil =>
    cases h
    exact .nil
  | cons e es ih =>
    cases h with
    | cons name h hrest =>
      refine .cons ?_ (ih hrest)
      rw [hundoes e.2 _ h]
      rfl

/-- A directory comes back in whatever order its entries come. -/
theorem Undoes.byName (hundoes : Undoes decode encode) :
    Undoes (decodeByName? decode) (encodeByName encode) := by
  intro d v h
  cases h with
  | @object fields moved _ hperm h =>
    obtain ⟨es, hes, hsame⟩ := List.perm_comp_forall₂ hperm (hundoes.forall₂_fields h)
    have hread : fields.mapM (fun f => (decode f.2).map (f.1, ·)) = some es :=
      mapM_of_forall₂ hes
    show (fields.mapM fun f => (decode f.2).map (f.1, ·)).bind _ = _
    rw [hread]
    exact congrArg some (ByName.ofList_of_perm hsame)

end Undoes

/-! ## Parts of a pipeline -/

theorem undoes_arguments : Undoes
    (fun v => (v.field? "entries").bind fun u => (decodePairs? u).map Arguments.mk)
    (fun args => .object [("entries", encodePairs args.entries)]) := by
  intro args v h
  obtain ⟨u, hu, hentries⟩ :=
    undoes_pairs.exists_field (x := args.entries) "entries" h (by simp) (by simp)
  simp [hu, hentries]

theorem undoes_action : Undoes decodeAction? encodeAction := by
  intro x v h
  cases x with
  | shell line head args =>
    simp only [encodeAction] at h
    obtain ⟨k, hk, hkind⟩ :=
      undoes_string.exists_field (x := "shell") "type" h (by simp) (by simp)
    obtain ⟨l, hl, hline⟩ :=
      undoes_string.exists_field (x := line) "command_line" h (by simp) (by simp)
    obtain ⟨w, hw, hhead⟩ :=
      undoes_string.exists_field (x := head) "head" h (by simp) (by simp)
    obtain ⟨ws, hws, hargs⟩ :=
      undoes_string.list.exists_field (x := args) "args" h (by simp) (by simp)
    simp [decodeAction?, hk, hkind, hl, hline, hw, hhead, hws, hargs]
  | call name args =>
    simp only [encodeAction] at h
    obtain ⟨k, hk, hkind⟩ :=
      undoes_string.exists_field (x := "proc") "type" h (by simp) (by simp)
    obtain ⟨n, hn, hname⟩ :=
      undoes_string.exists_field (x := name) "name" h (by simp) (by simp)
    obtain ⟨o, ho, hargs⟩ :=
      undoes_arguments.exists_field (x := args) "args" h (by simp) (by simp)
    obtain ⟨u, hu, hentries⟩ := Option.bind_eq_some_iff.1 hargs
    obtain ⟨es, hes, rfl⟩ := Option.map_eq_some_iff.1 hentries
    simp [decodeAction?, hk, hkind, hn, hname, ho, hu, hes]
  | block index =>
    simp only [encodeAction] at h
    obtain ⟨k, hk, hkind⟩ :=
      undoes_string.exists_field (x := "block") "type" h (by simp) (by simp)
    obtain ⟨i, hi, hindex⟩ :=
      undoes_natural.exists_field (x := index) "index" h (by simp) (by simp)
    simp [decodeAction?, hk, hkind, hi, hindex]

theorem undoes_item : Undoes decodeItem? encodeItem := by
  intro x v h
  obtain ⟨n, hn, hlabel⟩ :=
    undoes_string.exists_field (x := x.label) "name" h (by simp) (by simp)
  obtain ⟨a, ha, haction⟩ :=
    undoes_action.exists_field (x := x.action) "kind" h (by simp) (by simp)
  simp [decodeItem?, hn, hlabel, ha, haction]

theorem undoes_block : Undoes decodeBlock? encodeBlock := by
  intro b v h
  obtain ⟨xs, hxs, hitems⟩ :=
    undoes_item.list.exists_field (x := b.items) "items" h (by simp) (by simp)
  obtain ⟨p, hp, hparallel⟩ :=
    undoes_bool.exists_field (x := b.parallel) "parallel" h (by simp) (by simp)
  simp [decodeBlock?, hxs, hitems, hp, hparallel]

theorem undoes_procedure : Undoes decodeProcedure? encodeProcedure := by
  rintro ⟨name, blockIndex, attributes⟩ v h
  simp only [encodeProcedure] at h
  have hnames : (([("name", Value.string name), ("block_index", .natural blockIndex)] ++
      if attributes.isEmpty then [] else [("attributes", encodePairs attributes)]).map
        (·.1)).Nodup := by
    cases attributes <;> simp
  obtain ⟨n, hn, hname⟩ := undoes_string.exists_field (x := name) "name" h hnames (by simp)
  obtain ⟨i, hi, hindex⟩ :=
    undoes_natural.exists_field (x := blockIndex) "block_index" h hnames (by simp)
  have hattributes : decodeAttributes? v = some attributes := by
    cases attributes with
    | nil =>
      -- the field that was left out has this default
      have hnone := h.field?_eq_none "attributes" (by simp)
      simp [decodeAttributes?, hnone]
    | cons a as =>
      obtain ⟨u, hu, hpairs⟩ :=
        undoes_pairs.exists_field (x := a :: as) "attributes" h hnames (by simp)
      simp [decodeAttributes?, hu, hpairs]
  simp [decodeProcedure?, hn, hname, hi, hindex, hattributes]

theorem undoes_position : Undoes decodePosition? encodePosition := by
  intro p v h
  obtain ⟨f, hf, hfile⟩ :=
    undoes_string.exists_field (x := p.file) "file" h (by simp) (by simp)
  obtain ⟨n, hn, hline⟩ :=
    undoes_natural.exists_field (x := p.line) "line" h (by simp) (by simp)
  simp [decodePosition?, hf, hfile, hn, hline]

theorem undoes_pipeline : Undoes decodePipeline? encodePipeline := by
  rintro ⟨⟨blocks⟩, procedures, declarations⟩ v h
  obtain ⟨bs, hbs, hblocks⟩ :=
    undoes_block.list.exists_field (x := blocks) "blocks" h (by simp) (by simp)
  obtain ⟨ps, hps, hprocedures⟩ :=
    undoes_procedure.byName.exists_field (x := procedures) "procedures" h (by simp) (by simp)
  obtain ⟨ds, hds, hdeclarations⟩ :=
    undoes_position.byName.exists_field (x := declarations) "declarations" h (by simp) (by simp)
  simp [decodePipeline?, hbs, hblocks, hps, hprocedures, hds, hdeclarations]

/-- **Exchanging a pipeline.** Any pipeline, whether it makes sense or not, is read back from the
data it is written as, and also when the fields and entries of the objects in it come in another
order. -/
theorem decodePipeline?_encodePipeline (p : Pipeline) :
    decodePipeline? (encodePipeline p) = some p ∧
      ∀ v, v.Rearranges (encodePipeline p) → decodePipeline? v = some p :=
  ⟨undoes_pipeline p _ (.refl _), undoes_pipeline p⟩

/-- A pipeline that no document describes: it names blocks that it lacks, an argument is given
twice, and the procedure filed as `b` is called `a`. -/
def strayPipeline : Pipeline where
  blocks := #[⟨[⟨"", .call "b" ⟨[("x", "1"), ("x", "2")]⟩⟩, ⟨"run", .block 7⟩], true⟩]
  procedures := .ofList [("a", ⟨"a", 0, []⟩), ("b", ⟨"a", 9, [("k", ""), ("k", "v")]⟩)]
  declarations := .ofList [("c", ⟨"Tasks", 3⟩)]

/-- The same pipeline from a program that writes names in another order. -/
def strayValue : Value :=
  .object [
    ("declarations", .object [("c", .object [("line", .natural 3), ("file", .string "Tasks")])]),
    ("procedures", .object [
      ("b", .object [
        ("attributes", .array [.array [.string "k", .string ""], .array [.string "k", .string "v"]]),
        ("block_index", .natural 9), ("name", .string "a")]),
      ("a", .object [("block_index", .natural 0), ("name", .string "a")])]),
    ("blocks", .array [.object [
      ("items", .array [
        .object [("name", .string ""), ("kind", .object [("type", .string "proc"),
          ("name", .string "b"), ("args", .object [("entries", .array [
            .array [.string "x", .string "1"], .array [.string "x", .string "2"]])])])],
        .object [("name", .string "run"), ("kind", .object [("type", .string "block"),
          ("index", .natural 7)])]]),
      ("parallel", .bool true)]])]

theorem rearranges_strayValue : strayValue.Rearranges (encodePipeline strayPipeline) :=
  .object (List.reverse_perm _).symm <|
    .cons "blocks" (.refl _) <|
    .cons "procedures" (.object (List.reverse_perm _).symm <|
      .cons "a" (.object (List.reverse_perm _).symm (.refl _)) <|
      .cons "b" (.object (List.reverse_perm _).symm (.refl _)) .nil) <|
    .cons "declarations" (.object (.refl _) <|
      .cons "c" (.object (List.reverse_perm _).symm (.refl _)) .nil) .nil

theorem decodePipeline?_encodePipeline_strayValue :
    decodePipeline? (encodePipeline strayPipeline) = some strayPipeline ∧
      strayValue.Rearranges (encodePipeline strayPipeline) ∧
      decodePipeline? strayValue = some strayPipeline :=
  have h := decodePipeline?_encodePipeline strayPipeline
  ⟨h.1, rearranges_strayValue, h.2 strayValue rearranges_strayValue⟩

end Runbook.Data
