import Runbook.Data.Value
import Runbook.Pipeline.Outline

/-!
# Pipelines as data

`encode` writes a part of a pipeline as a data value, and `decode?` reads it back. A reader ignores
fields that it does not know and needs every other field, save for the attributes of a procedure.
It does not check that a pipeline makes sense.
-/

namespace Runbook.Data

def encodePairs (es : List (String × String)) : Value :=
  .array (es.map fun e => .array [.string e.1, .string e.2])

def decodePair? : Value → Option (String × String)
  | .array [.string a, .string b] => some (a, b)
  | _ => none

def decodePairs? (v : Value) : Option (List (String × String)) :=
  v.listOf? decodePair?

/-- A directory as an object. -/
def encodeByName {α : Type} (encode : α → Value) (d : ByName α) : Value :=
  .object (d.entries.map fun e => (e.1, encode e.2))

def decodeByName? {α : Type} (decode : Value → Option α) (v : Value) : Option (ByName α) := do
  let fields ← v.object?
  let entries ← fields.mapM fun (name, x) => (decode x).map (name, ·)
  return .ofList entries

/-- The action of an item, with a field that tells its kind. -/
def encodeAction : Action → Value
  | .shell line head args =>
    .object [("type", .string "shell"), ("command_line", .string line), ("head", .string head),
      ("args", .array (args.map .string))]
  | .call name args =>
    .object [("type", .string "proc"), ("name", .string name),
      ("args", .object [("entries", encodePairs args.entries)])]
  | .block index => .object [("type", .string "block"), ("index", .natural index)]

def decodeAction? (v : Value) : Option Action := do
  let kind ← (← v.field? "type").string?
  if kind = "shell" then
    return .shell (← (← v.field? "command_line").string?) (← (← v.field? "head").string?)
      (← (← v.field? "args").listOf? Value.string?)
  else if kind = "proc" then
    let args ← v.field? "args"
    return .call (← (← v.field? "name").string?) ⟨← decodePairs? (← args.field? "entries")⟩
  else if kind = "block" then
    return .block (← (← v.field? "index").natural?)
  else none

def encodeItem (x : Item) : Value :=
  .object [("name", .string x.label), ("kind", encodeAction x.action)]

def decodeItem? (v : Value) : Option Item := do
  return ⟨← (← v.field? "name").string?, ← decodeAction? (← v.field? "kind")⟩

def encodeBlock (b : Block) : Value :=
  .object [("items", .array (b.items.map encodeItem)), ("parallel", .bool b.parallel)]

def decodeBlock? (v : Value) : Option Block := do
  return ⟨← (← v.field? "items").listOf? decodeItem?, ← (← v.field? "parallel").bool?⟩

/-- A procedure as data, without a field for attributes when it has none. -/
def encodeProcedure (x : Procedure) : Value :=
  .object ([("name", .string x.name), ("block_index", .natural x.blockIndex)] ++
    if x.attributes.isEmpty then [] else [("attributes", encodePairs x.attributes)])

def decodeAttributes? (v : Value) : Option (List (String × String)) :=
  match v.field? "attributes" with
  | some a => decodePairs? a
  | none => some []

def decodeProcedure? (v : Value) : Option Procedure := do
  return ⟨← (← v.field? "name").string?, ← (← v.field? "block_index").natural?,
    ← decodeAttributes? v⟩

def encodePosition (p : Position) : Value :=
  .object [("file", .string p.file), ("line", .natural p.line)]

def decodePosition? (v : Value) : Option Position := do
  return ⟨← (← v.field? "file").string?, ← (← v.field? "line").natural?⟩

def encodePipeline (p : Pipeline) : Value :=
  .object [("blocks", .array (p.blocks.toList.map encodeBlock)),
    ("procedures", encodeByName encodeProcedure p.procedures),
    ("declarations", encodeByName encodePosition p.declarations)]

def decodePipeline? (v : Value) : Option Pipeline := do
  let blocks ← (← v.field? "blocks").listOf? decodeBlock?
  return ⟨blocks.toArray, ← decodeByName? decodeProcedure? (← v.field? "procedures"),
    ← decodeByName? decodePosition? (← v.field? "declarations")⟩

mutual

def encodeOutline : Outline → Value
  | .shell line => .object [("Shell", .string line)]
  | .call name args =>
    .object [("Proc", .object [("name", .string name), ("args", encodePairs args.entries)])]
  | .group parallel members =>
    .object [(if parallel then "Parallel" else "Sequential", .array (encodeOutlines members))]

def encodeOutlines : List Outline → List Value
  | [] => []
  | x :: xs => encodeOutline x :: encodeOutlines xs

end

def encodeVariables (vars : ByName String) : Value :=
  encodeByName .string vars

/-- The trees of all procedures and of the default block as data. -/
def encodeTrees (p : Pipeline) : Except Misuse Value := do
  let entries ← p.procedures.entries.mapM fun (name, x) => do
    return (name, encodeOutline (← p.tree x.blockIndex))
  return .object [("procedures", .object entries),
    ("default", encodeOutline (← p.tree Pipeline.defaultIndex))]

end Runbook.Data
