import Runbook.Document.Config
import Runbook.Document.Nest
import Runbook.Files.Path

/-!
# Loading documents

A document is loaded line by line. Between entries the loader is idle; an unfinished command, a
header whose block is awaited, and a block that is being read each keep it in a mode of its own
until they are done. What the end of the text means hangs on the mode alone.
-/

namespace Runbook.Document

/-- How documents are loaded. -/
structure Options where
  /-- Whether the default block is parallel. -/
  defaultParallel : Bool := false
  /-- Whether an included file must exist. -/
  strictIncludes : Bool := false
  /-- Whether the configuration file beside a document is read. -/
  siblingConfig : Bool := true
  /-- What follows the document's path in the path of that file. -/
  configSuffix : String := ".conf"
  deriving DecidableEq, Repr, Inhabited

/-- What a load sees of the file system. -/
structure Surroundings where
  isPresent : String → Bool
  read : String → Except Files.FileError String
  [naming : Files.Path.Naming]

/-- What a load depends on beside the text. -/
structure Setting where
  options : Options
  files : Surroundings

/-- A header, and where it stands. -/
structure Declaration where
  name : String
  pos : Position
  deriving DecidableEq, Repr

/-- What the loader is about. -/
inductive Mode where
  /-- The next line starts an entry. -/
  | idle
  /-- In a command of the default block, with its text so far. -/
  | command (text : String)
  /-- Behind a header without bracket. -/
  | header (d : Declaration)
  /-- In a block: the body of a procedure, or of the default block. -/
  | body (owner : Option Declaration) (nest : Nest)
  deriving DecidableEq, Repr

/-- What is loaded so far. -/
structure State where
  /-- The blocks and procedures, with a default block that is still empty. -/
  pipeline : Pipeline
  /-- The items of the default block, the last one first. -/
  items : List Item
  assigned : Variables
  /-- Attributes that wait for a procedure, the last one first. -/
  pending : List (String × String)
  mode : Mode
  deriving DecidableEq

/-- A document that is loaded. -/
structure Loaded where
  pipeline : Pipeline
  assigned : Variables
  deriving DecidableEq

namespace State

def start (options : Options) : State :=
  ⟨.empty options.defaultParallel, [], .empty, [], .idle⟩

def enter (s : State) (m : Mode) : State :=
  { s with mode := m }

def withTable (s : State) (t : Table) : State :=
  { s with pipeline := { s.pipeline with blocks := t } }

/-- Whether attributes may stand above a line of this kind. -/
def keepsPending : LineKind → Bool
  | .header .. | .attribute | .comment | .empty => true
  | _ => false

/-- Attributes that no procedure follows are dropped. -/
def dropPending (s : State) (pos : Position) (kind : LineKind) : Logged LoadError State := do
  if s.pending.isEmpty || keepsPending kind then return s
  Logged.log .warn (toString s.pending.length ++ " attribute line(s) before " ++ pos.text ++
    " do not precede a procedure, dropped")
  return { s with pending := [] }

/-- Reads the variables of an included file. -/
def readInclude (s : State) (c : Setting) (pos : Position) (target : String) :
    Logged LoadError State := do
  let path := Files.Path.join (c.files.naming.directory pos.file) target
  if c.files.isPresent path then
    Logged.log .info ("Loading module '" ++ target ++ "'")
    let vars ← (readConfigFile path (c.files.read path) s.assigned).all
    return { s with assigned := vars }
  else if c.options.strictIncludes then throw (.includeNotFound path pos)
  else
    Logged.log .warn ("Included file " ++ path ++ " not found at " ++ pos.text ++ ", skipped")
    return s

def readAttribute (s : State) (pos : Position) (line : String) : Logged LoadError State := do
  match attribute? line with
  | some a => return { s with pending := a :: s.pending }
  | none =>
    Logged.log .warn ("Ignoring malformed attribute line at " ++ pos.text ++ ": " ++
      Text.trimmed line)
    return s

/-- Reads a header: its name must be new, and it counts as declared from here on. -/
def readHeader (s : State) (pos : Position) (name : String) (bracket : Option Bracket) :
    Logged LoadError State :=
  match s.pipeline.declarations.get? name with
  | some previous => throw (.duplicateProcedure name pos previous)
  | none =>
    let s := { s with pipeline := s.pipeline.declare name pos }
    return s.enter (match bracket with
      | some b => .body (some ⟨name, pos⟩) (.new b)
      | none => .header ⟨name, pos⟩)

/-- More items for the default block. -/
def appendDefault (s : State) (xs : List Item) : State :=
  { s with items := xs.reverse ++ s.items, mode := .idle }

/-- Reads a command of the default block with this text: its items join the block once it is
complete. -/
def readCommand (s : State) (pos : Position) (text : String) : Logged LoadError State := do
  match ← Logged.ofExcept (commandAt pos text) with
  | none => return s.enter (.command text)
  | some statements =>
    let b ← (Logged.ofExcept s.pipeline.defaultBlock).mapError .misuse
    let t := s.pipeline.blocks
    let x := Placement.ofCommand text statements b.parallel
    Logged.tell (x.records t)
    return (s.withTable (x.addTo t)).appendDefault (x.itemsIn t)

/-- A block that was read becomes the body of its procedure, or is run by the default block. -/
def finishBody (s : State) (owner : Option Declaration) (b : Block) : Logged LoadError State := do
  let i := s.pipeline.blocks.size
  let s := s.withTable (s.pipeline.blocks.push b)
  match owner with
  | none => return s.appendDefault [.block i]
  | some d =>
    Logged.log .debug ("Procedure '" ++ d.name ++ "' declared at " ++ d.pos.text ++
      " uses block " ++ toString i)
    match s.pipeline.addProcedure ⟨d.name, i, s.pending.reverse⟩ with
    | .ok p => return { s with pipeline := p, pending := [], mode := .idle }
    | .error m => throw (.misuse m)

/-- A line that starts an entry. -/
def stepIdle (s : State) (c : Setting) (pos : Position) (line : String) :
    Logged LoadError State := do
  let kind := classify line
  let s ← s.dropPending pos kind
  match kind with
  | .include target => s.readInclude c pos target
  | .header name bracket => s.readHeader pos name bracket
  | .left b => return s.enter (.body none (.new b))
  | .right found => throw (.unmatchedRightBracket pos found)
  | .empty | .comment => return s
  | .attribute => s.readAttribute pos line
  | .variable name value => return { s with assigned := s.assigned.insert name value }
  | .command => s.readCommand pos (Shell.firstLine line)

/-- A line between a header and its block. -/
def stepHeader (s : State) (d : Declaration) (pos : Position) (line : String) :
    Logged LoadError State :=
  if isEmptyLine line then return s
  else if isAttributeLine line then throw (.unexpectedAttribute pos)
  else if isCommentLine line then return s
  else
    match leftBracket? line with
    | some b => return s.enter (.body (some d) (.new b))
    | none => throw (.expectedLeftBracket pos)

/-- A line inside a block. -/
def stepBody (s : State) (owner : Option Declaration) (n : Nest) (pos : Position) (line : String) :
    Logged LoadError State := do
  match ← n.step s.pipeline.blocks pos line with
  | .inside n t => return (s.withTable t).enter (.body owner n)
  | .closed b t => (s.withTable t).finishBody owner b

def step (s : State) (c : Setting) (pos : Position) (line : String) : Logged LoadError State :=
  match s.mode with
  | .idle => s.stepIdle c pos line
  | .command text => s.readCommand pos (Shell.joinLine text line)
  | .header d => s.stepHeader d pos line
  | .body owner n => s.stepBody owner n pos line

/-- Some lines, of which the first one is line `n + 1` of the file. -/
def run (s : State) (c : Setting) (file : String) (n : Nat) :
    List String → Logged LoadError State
  | [] => return s
  | line :: rest => do (← s.step c ⟨file, n + 1⟩ line).run c file (n + 1) rest

/-- The document when the text ends behind line `last`. -/
def finish (s : State) (last : Position) : Logged LoadError Loaded :=
  match s.mode with
  | .idle => do
    if !s.pending.isEmpty then
      Logged.log .warn (toString s.pending.length ++ " attribute line(s) at end of " ++
        last.file ++ " do not precede a procedure, dropped")
    match s.pipeline.modifyBlock Pipeline.defaultIndex (·.append s.items.reverse) with
    | .ok p => return ⟨p, s.assigned⟩
    | .error m => throw (.misuse m)
  | .command _ => throw (.unexpectedEnd last)
  | .header d => throw (.missingLeftBracket d.pos)
  | .body _ n => throw (n.endError last)

theorem run_append (s : State) (c : Setting) (file : String) (n : Nat) (xs ys : List String) :
    s.run c file n (xs ++ ys) =
      s.run c file n xs >>= fun t => t.run c file (n + xs.length) ys := by
  induction xs generalizing s n with
  | nil => simp [run]
  | cons x xs ih =>
    simp only [List.cons_append, run, bind_assoc, ih, List.length_cons]
    congr 1
    funext t
    rw [show n + 1 + xs.length = n + (xs.length + 1) by omega]

end State

def loadLines (c : Setting) (file : String) (lines : List String) : Logged LoadError Loaded := do
  (← (State.start c.options).run c file 0 lines).finish ⟨file, lines.length⟩

def loadText (c : Setting) (file text : String) : Logged LoadError Loaded :=
  loadLines c file (Text.lines text)

/-- The path of the configuration file beside a document. -/
def Options.siblingPath (o : Options) (path : String) : String :=
  path ++ o.configSuffix

/-- Reads the configuration file beside a document, if there is one. -/
def readSibling (c : Setting) (path : String) (d : Loaded) : Logged LoadError Loaded := do
  let sibling := c.options.siblingPath path
  if !c.options.siblingConfig then return d
  if c.files.isPresent sibling then
    Logged.log .info ("Loading configuration " ++ sibling)
    let vars ← (readConfigFile sibling (c.files.read sibling) d.assigned).all
    return { d with assigned := vars }
  Logged.log .debug ("No configuration file at " ++ sibling)
  return d

/-- Loads a document file and the configuration file beside it. -/
def loadFile (c : Setting) (path : String) : Logged LoadError Loaded := do
  match c.files.read path with
  | .error e => throw (.unreadable path e)
  | .ok text => readSibling c path (← loadText c path text)

end Runbook.Document
