/-!
# Paths

A path is text whose components are separated by slashes. Empty components, and a `.` that is not
the first component, say nothing.
-/

namespace Runbook.Files.Path

/-- The parts of a text between its slashes. -/
def pieces : List Char → List (List Char)
  | [] => [[]]
  | c :: cs =>
    if c = '/' then [] :: pieces cs
    else
      match pieces cs with
      | [] => [[c]]
      | p :: ps => (c :: p) :: ps

/-- The text of some parts with slashes between them. -/
def unpieces (ps : List (List Char)) : List Char :=
  ['/'].intercalate ps

/-- A part that names nothing. -/
def isVoid (p : List Char) : Bool :=
  p = [] ∨ p = ['.']

/-- The parts without those at the end that name nothing. -/
def dropVoid (ps : List (List Char)) : List (List Char) :=
  (ps.reverse.dropWhile isVoid).reverse

/-- The mark at the start of a path, a slash or the current directory, and what follows it. -/
def splitMark : List Char → List Char × List Char
  | '/' :: cs => (['/'], cs)
  | ['.'] => (['.'], [])
  | '.' :: '/' :: cs => (['.'], '/' :: cs)
  | cs => ([], cs)

/-- The path without its last component, if it has one. -/
def parent? (path : String) : Option String :=
  let (mark, body) := splitMark path.toList
  match dropVoid (pieces body) with
  | [] => if mark = ['.'] then some "" else none
  | ps => some (String.ofList (mark ++ unpieces (dropVoid ps.dropLast)))

/-- The directory of a path, the current one when the path names none. -/
def directory (path : String) : String :=
  match parent? path with
  | some dir => if dir.isEmpty then "." else dir
  | none => "."

/-- How a file system names the directory of a path. -/
class Naming where
  directory : String → String

/-- A local file system looks at the path alone. -/
instance : Naming := ⟨directory⟩

def isAbsolute (path : String) : Bool :=
  path.toList.head? = some '/'

/-- The path `target` seen from a directory. -/
def join (dir target : String) : String :=
  if isAbsolute target then target
  else if dir.isEmpty ∨ dir.toList.getLast? = some '/' then dir ++ target
  else dir ++ "/" ++ target

/-- The components of a path, its mark first. Paths with the same components are the same. -/
def components (path : String) : List (List Char) :=
  let (mark, body) := splitMark path.toList
  let names := (pieces body).filter (!isVoid ·)
  if mark.isEmpty then names else mark :: names

/-- Whether two texts are the same path. -/
def same (a b : String) : Bool :=
  components a = components b

end Runbook.Files.Path
