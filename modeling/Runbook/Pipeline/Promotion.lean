import Runbook.Log
import Runbook.Pipeline.Basic

/-!
# Promotion of commands to procedure calls

A shell command whose command word names a procedure, and whose other words all have the form
`name=value`, is a call of that procedure. An option given twice is an error.
-/

namespace Runbook

/-- A call that gives an option twice. -/
structure DuplicatedOption where
  procedure : String
  option : String
  line : String
  deriving DecidableEq, Repr

def DuplicatedOption.message (e : DuplicatedOption) : String :=
  "Duplicated option '" ++ e.option ++ "' in call to procedure '" ++ e.procedure ++ "': " ++ e.line

/-- A character of an option's name. -/
def isOptionChar (c : Char) : Bool :=
  c.isAlphanum || c == '_'

/-- A word of the form `name=value`, cut at its first `=`. -/
def splitOption? (word : String) : Option (String × String) :=
  let name := word.toList.takeWhile (· ≠ '=')
  match word.toList.dropWhile (· ≠ '=') with
  | [] => none
  | _ :: value =>
    if name ≠ [] ∧ name.all isOptionChar then some (String.ofList name, String.ofList value)
    else none

/-- The arguments when the options `words` follow those in `args`: none if a word is no option,
an error with the name that comes a second time. -/
def gatherOptions (args : Arguments) : List String → Except String (Option Arguments)
  | [] => .ok (some args)
  | word :: rest =>
    match splitOption? word with
    | none => .ok none
    | some (name, value) =>
      match args.add name (Shell.unquote value) with
      | .ok more => gatherOptions more rest
      | .error _ => .error name

/-- The procedure call that an item stands for, when the procedures are those of `known`. -/
def Item.promote (x : Item) (known : String → Bool) : Except DuplicatedOption (Option Item) :=
  match x.action with
  | .shell line head words =>
    if known head then
      match gatherOptions .empty words with
      | .ok args => .ok (args.map (.call head))
      | .error option => .error ⟨head, option, line⟩
    else .ok none
  | _ => .ok none

/-- How far a promotion came: the value with every call before the first error promoted, the
labels of the promoted items in order, and the error. -/
structure Sweep (α : Type u) where
  value : α
  labels : List String
  error : Option DuplicatedOption

/-- The items of a block, one after the other up to the first error. -/
def promoteItems (known : String → Bool) : List Item → Sweep (List Item)
  | [] => ⟨[], [], none⟩
  | x :: xs =>
    match x.promote known with
    | .error e => ⟨x :: xs, [], some e⟩
    | .ok none =>
      let more := promoteItems known xs
      ⟨x :: more.value, more.labels, more.error⟩
    | .ok (some call) =>
      let more := promoteItems known xs
      ⟨call :: more.value, x.label :: more.labels, more.error⟩

/-- The blocks of a table, one after the other up to the first error. -/
def promoteBlocks (known : String → Bool) : List Block → Sweep (List Block)
  | [] => ⟨[], [], none⟩
  | b :: bs =>
    let here := promoteItems known b.items
    match here.error with
    | some e => ⟨{ b with items := here.value } :: bs, here.labels, some e⟩
    | none =>
      let more := promoteBlocks known bs
      ⟨{ b with items := here.value } :: more.value, here.labels ++ more.labels, more.error⟩

namespace Pipeline

/-- Every block of the pipeline, up to the first error. -/
def promote (p : Pipeline) : Sweep Pipeline :=
  let s := promoteBlocks p.procedures.contains p.blocks.toList
  ⟨{ p with blocks := s.value.toArray }, s.labels, s.error⟩

/-- What the log says about promoted items. -/
def promotionRecords (labels : List String) : List LogRecord :=
  labels.map fun label => ⟨.debug, "promoted '" ++ label ++ "' to a procedure call"⟩

/-- The pipeline after its promotion, the log, and the error or the number of promoted items. -/
def promoteCount (p : Pipeline) : Pipeline × Logged DuplicatedOption Nat :=
  let s := p.promote
  (s.value, ⟨promotionRecords s.labels,
    match s.error with
    | some e => .error e
    | none => .ok s.labels.length⟩)

/-- The check behind a load: promotes every call, also of procedures declared further down. -/
def check (p : Pipeline) : Pipeline × Logged DuplicatedOption PUnit :=
  let (p, counted) := p.promoteCount
  (p, do
    let n ← counted
    Logged.log .debug (toString n ++ " shell command(s) promoted to procedure calls"))

end Pipeline

end Runbook
