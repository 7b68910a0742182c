import Runbook.Files.Path
import Runbook.Text.Utf8

/-!
# A tree of files

A disk holds files and directories below a working directory. Nothing is known of what lies above
that directory, save that it is a directory. Looking up a path follows its parts one by one, and
each part needs a directory to look in.
-/

namespace Runbook.Files

/-- Why a file could not be read or written. -/
inductive FileError where
  | notFound
  | isDirectory
  | notDirectory
  /-- The path, or a name in it, has more octets than it may. -/
  | tooLong
  /-- The path has a NUL, which no file name can have. -/
  | nulInPath
  /-- The content is no text. -/
  | notUtf8
  deriving DecidableEq, Repr

def FileError.message : FileError → String
  | .notFound => "No such file or directory (os error 2)"
  | .isDirectory => "Is a directory (os error 21)"
  | .notDirectory => "Not a directory (os error 20)"
  | .tooLong => "File name too long (os error 36)"
  | .nulInPath => "file name contained an unexpected NUL byte"
  | .notUtf8 => "stream did not contain valid UTF-8"

/-- What stands under a name. -/
inductive Node where
  | directory
  | file (content : List UInt8) (executable : Bool)
  deriving DecidableEq, Repr

/-- The names that lead from the working directory to a node. -/
abbrev Route := List (List Char)

/-- The nodes below the working directory, the latest entry of a route first. -/
structure Disk where
  entries : List (Route × Node)
  deriving DecidableEq, Repr

/-- Where a lookup stands. -/
inductive Place where
  /-- At a node on the disk. -/
  | inside (route : Route)
  /-- Above the working directory. -/
  | outside
  deriving DecidableEq, Repr

namespace Disk

def empty : Disk := ⟨[]⟩

/-- The node at the end of a route. -/
def node? (d : Disk) (route : Route) : Option Node :=
  if route.isEmpty then some .directory else (d.entries.find? (·.1 = route)).map (·.2)

/-- The disk with a node at the end of a route. -/
def put (d : Disk) (route : Route) (n : Node) : Disk :=
  ⟨(route, n) :: d.entries.filter (·.1 ≠ route)⟩

/-- The most octets of a name. -/
def maxNameOctets : Nat := 255

/-- The most octets of a path. -/
def maxPathOctets : Nat := 4095

/-- Whether a name has more octets than it may. -/
def isLongName (part : List Char) : Bool :=
  maxNameOctets < (String.ofList part).utf8ByteSize

/-- The path, unless it is refused before anything is looked up. -/
def admitted (path : String) : Except FileError String :=
  if path.toList.contains '\x00' then .error .nulInPath
  else if maxPathOctets < path.utf8ByteSize then .error .tooLong
  else if path.isEmpty then .error .notFound
  else .ok path

/-- The place that one more part of a path leads to. A name is looked at only in a directory. -/
def step (d : Disk) (place : Place) (part : List Char) : Except FileError Place :=
  match place with
  | .outside =>
    if Path.isVoid part ∨ part = ['.', '.'] then .ok .outside
    else if isLongName part then .error .tooLong
    else .error .notFound
  | .inside route =>
    match d.node? route with
    | some .directory =>
      if Path.isVoid part then .ok place
      else if part = ['.', '.'] then
        .ok (if route.isEmpty then .outside else .inside route.dropLast)
      else if isLongName part then .error .tooLong
      else if (d.node? (route ++ [part])).isSome then .ok (.inside (route ++ [part]))
      else .error .notFound
    | some (.file ..) => .error .notDirectory
    | none => .error .notFound

/-- The place that some parts lead to. -/
def walk (d : Disk) (parts : List (List Char)) : Except FileError Place :=
  parts.foldlM d.step (match parts with
    | [] :: _ => .outside
    | _ => .inside [])

/-- The place of a path. -/
def locate (d : Disk) (path : String) : Except FileError Place := do
  d.walk (Path.pieces (← admitted path).toList)

def lookup (d : Disk) (path : String) : Except FileError Node := do
  match ← d.locate path with
  | .outside => return .directory
  | .inside route =>
    match d.node? route with
    | some n => return n
    | none => throw .notFound

def isPresent (d : Disk) (path : String) : Bool :=
  (d.lookup path).toBool

/-- Whether an executable file stands at a path. -/
def isExecutable (d : Disk) (path : String) : Bool :=
  match d.lookup path with
  | .ok (.file _ executable) => executable
  | _ => false

/-- The number of octets that decide whether a file is text. -/
def sniffLength : Nat := 8192

/-- Content whose first octets have no NUL and start some text. A character that is cut off by the
end of these octets does no harm. -/
def looksLikeText (content : List UInt8) : Bool :=
  let head := content.take sniffLength
  !head.contains 0 && Text.Utf8.isStart head

/-- Whether a file that looks like text stands at a path. -/
def isTextFile (d : Disk) (path : String) : Bool :=
  match d.lookup path with
  | .ok (.file content _) => looksLikeText content
  | _ => false

/-- The text of the file at a path. -/
def read (d : Disk) (path : String) : Except FileError String := do
  match ← d.lookup path with
  | .directory => throw .isDirectory
  | .file content _ =>
    match Text.Utf8.decode? content with
    | some s => return s
    | none => throw .notUtf8

/-- The directory that holds what a path names, and the name; a slash at the end of the path makes
the name one of a directory. -/
def locateParent (d : Disk) (path : String) : Except FileError (Place × List Char × Bool) := do
  let parts := Path.pieces (← admitted path).toList
  let named := (parts.reverse.dropWhile (·.isEmpty)).reverse
  let start := if parts.head? = some [] then Place.outside else .inside []
  let place ← named.dropLast.foldlM d.step start
  if let .inside route := place then
    if let some (.file ..) := d.node? route then throw .notDirectory
  let name := named.getLast?.getD []
  return (place, name, Path.isVoid name || name = ['.', '.'] || named.length < parts.length)

/-- The disk with a file of this content at a path. A file that is there keeps whether it is
executable; its directory must be there. -/
def write (d : Disk) (path : String) (content : List UInt8) : Except FileError Disk := do
  let (place, name, isDirectory) ← d.locateParent path
  if isDirectory then throw .isDirectory
  if isLongName name then throw .tooLong
  match place with
  | .outside => throw .notFound
  | .inside route =>
    match d.node? (route ++ [name]) with
    | some .directory => throw .isDirectory
    | some (.file _ executable) => return d.put (route ++ [name]) (.file content executable)
    | none => return d.put (route ++ [name]) (.file content false)

/-- The disk with the directories of a route, from the working directory on. -/
def makeRoute (d : Disk) (done : Route) : List (List Char) → Disk
  | [] => d
  | part :: parts =>
    if Path.isVoid part then makeRoute d done parts
    else if part = ['.', '.'] then makeRoute d done.dropLast parts
    else
      let here := done ++ [part]
      makeRoute (if (d.node? here).isSome then d else d.put here .directory) here parts

/-- The disk with a directory at a path, and the directories that lead to it. -/
def makeDirectory (d : Disk) (path : String) : Disk :=
  d.makeRoute [] (Path.pieces path.toList)

/-- The disk with the file at a path executable or not. -/
def setExecutable (d : Disk) (path : String) (executable : Bool) : Disk :=
  match d.locate path with
  | .ok (.inside route) =>
    match d.node? route with
    | some (.file content _) => d.put route (.file content executable)
    | _ => d
  | _ => d

end Disk

end Runbook.Files
