import Runbook.Pipeline.Misuse
import Runbook.Shell.Quote
import Runbook.Shell.Scan

/-!
# Items of a block

An item is what a block runs at one place: a shell command, a call of a procedure with named
arguments, or another block, given by its index in the table of blocks. Every item has a label.
-/

namespace Runbook

/-- Named arguments in the order in which they were given. -/
structure Arguments where
  entries : List (String × String)
  deriving DecidableEq, Repr

namespace Arguments

def empty : Arguments := ⟨[]⟩

/-- The value of an argument, the first one where a name is repeated. -/
def get? (a : Arguments) (name : String) : Option String :=
  (a.entries.find? (·.1 = name)).map (·.2)

/-- Whether there is an argument of this name. -/
def contains (a : Arguments) (name : String) : Bool :=
  a.entries.any (·.1 = name)

def names (a : Arguments) : List String :=
  a.entries.map (·.1)

/-- One more argument; its name must be new. -/
def add (a : Arguments) (name value : String) : Except Misuse Arguments :=
  if a.contains name then .error (.argumentTwice name) else .ok ⟨a.entries ++ [(name, value)]⟩

/-- Arguments added in turn. -/
def addAll (a : Arguments) : List (String × String) → Except Misuse Arguments
  | [] => .ok a
  | (name, value) :: rest => do (← a.add name value).addAll rest

/-- How an argument is written behind the name of a procedure. -/
def entryText (encode : Shell.Encoder) (e : String × String) : String :=
  " " ++ e.1 ++ "=" ++ encode e.2

/-- How the arguments are written behind the name of a procedure. -/
def render (a : Arguments) (encode : Shell.Encoder) : String :=
  String.join (a.entries.map (entryText encode))

/-- The arguments in a dump, with their plain values. -/
def detail (a : Arguments) : String :=
  " ".intercalate (a.entries.map fun e => e.1 ++ "=" ++ e.2)

end Arguments

/-- What an item runs. -/
inductive Action where
  /-- A shell command: its text, its command word, and the words behind it. -/
  | shell (line head : String) (args : List String)
  /-- A call of a procedure. -/
  | call (name : String) (args : Arguments)
  /-- The block at an index of the table. -/
  | block (index : Nat)
  deriving DecidableEq, Repr

/-- What a block runs at one place. -/
structure Item where
  label : String
  action : Action
  deriving DecidableEq, Repr

namespace Item

/-- A character that a label keeps. -/
def isLabelChar (c : Char) : Bool :=
  c.isAlphanum || ['-', '_', '+'].contains c

/-- The label of a command: what its text up to the first blank has of `[-_+0-9A-Za-z]`. -/
def labelOf (line : String) : String :=
  let cs := (line.toList.takeWhile (!Text.isBlank ·)).filter isLabelChar
  if cs.isEmpty then "shell" else String.ofList cs

/-- A shell command from its words. -/
def shell (line head : String) (args : List String) : Item :=
  ⟨labelOf line, .shell line head args⟩

def call (name : String) (args : Arguments) : Item :=
  ⟨name, .call name args⟩

def block (index : Nat) : Item :=
  ⟨"block", .block index⟩

/-- One statement as a shell command. -/
def ofStatement (s : Shell.Statement) : Item :=
  shell s.text s.head s.args

/-- A whole command line as one shell command. A `;` stands among the words between two
statements, so that the item never passes for a procedure call. -/
def ofStatements (line : String) (statements : List Shell.Statement) : Item :=
  match List.intercalate [";"] (statements.map Shell.Statement.wordTexts) with
  | [] => shell line "" []
  | head :: args => shell line head args

/-- A command line as one shell command, without words when it is no complete command. -/
def ofLine (line : String) : Item :=
  let line := Text.trimmed line
  match Shell.tokenize line with
  | .complete statements => ofStatements line statements
  | _ => shell line "" []

def typeName (x : Item) : String :=
  match x.action with
  | .shell .. => "shell"
  | .call .. => "proc"
  | .block _ => "block"

/-- The index that a reference has. -/
def blockIndex? (x : Item) : Option Nat :=
  match x.action with
  | .block index => some index
  | _ => none

/-- The item as a command; a reference has no text of its own. -/
def text? (x : Item) (encode : Shell.Encoder) : Option String :=
  match x.action with
  | .shell line _ _ => some line
  | .call name args => some (name ++ args.render encode)
  | .block _ => none

def detail (x : Item) : String :=
  "type='" ++ x.typeName ++ "', name='" ++ x.label ++ "'" ++
    match x.action with
    | .shell line _ _ => ", shellCmd='" ++ line ++ "'"
    | .call name args => ", procName='" ++ name ++ "', procArgs=\x7b" ++ args.detail ++ "\x7d"
    | .block index => ", blockIndex=" ++ toString index

end Item

end Runbook
