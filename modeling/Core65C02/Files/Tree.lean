import Core65C02.Files.Host
import Core65C02.Files.Path

/-!
# Trees of files

Files and directories as a value. A place is the list of parts that leads there from the working
directory, or from the root if its first part is a slash. Every directory on the way to a file or
directory has to be there.
-/

namespace Core65C02

/-- The parts that lead to a file or a directory. -/
abbrev Place := List String

/-- Files and directories. -/
structure FileTree where
  /-- The files with their bytes. -/
  files : List (Place × List UInt8) := []
  /-- The directories other than the working directory and the root. At first there is one, for
  temporary files. -/
  directories : List Place := [["/", "tmp"]]
deriving DecidableEq, Inhabited

namespace FileTree

/-- The root directory. -/
def root : Place := ["/"]

/-- Whether there is a directory at a place. -/
def hasDirectory (t : FileTree) (place : Place) : Bool :=
  place == [] || place == root || t.directories.contains place

/-- The directory above a place; what is above the working directory is not known. -/
def parent : Place → Option Place
  | [] => none
  | ["/"] => some root
  | place => some place.dropLast

/-- Follows parts from a place on. -/
def walk (t : FileTree) (place : Place) : List String → Option Place
  | [] => some place
  | part :: rest =>
    if !t.hasDirectory place then none
    else if Path.isIdle part then t.walk place rest
    else if part = ".." then (parent place).bind fun place => t.walk place rest
    else t.walk (place ++ [part]) rest

/-- The place that a path leads to. -/
def locate (t : FileTree) (path : String) : Option Place :=
  match Path.split path with
  | [""] => none
  | "" :: rest => t.walk root rest
  | parts => t.walk [] parts

/-- The bytes of the file at a path. -/
def read (t : FileTree) (path : String) : Option (List UInt8) :=
  (t.locate path).bind fun place => t.files.lookup place

/-- The tree with a file at a place, whatever was there. -/
def put (t : FileTree) (place : Place) (bytes : List UInt8) : FileTree :=
  { t with files := (place, bytes) :: t.files.filter fun file => file.1 != place }

/-- The tree with a file at a path, unless a directory is there or the one above is missing. -/
def write (t : FileTree) (path : String) (bytes : List UInt8) : Option FileTree := do
  let place ← t.locate path
  let above ← parent place
  if t.hasDirectory place || !t.hasDirectory above then none else some (t.put place bytes)

/-- The tree without the file at a path, if there is one. -/
def remove (t : FileTree) (path : String) : Option FileTree := do
  let place ← t.locate path
  let _ ← t.files.lookup place
  return { t with files := t.files.filter fun file => file.1 != place }

/-- Whether a path leads to a directory. -/
def isDirectory (t : FileTree) (path : String) : Bool :=
  match t.locate path with
  | some place => t.hasDirectory place
  | none => false

/-- The name of a place in a directory. -/
def nameIn (directory place : Place) : Option String :=
  if place.dropLast == directory && place != root then place.getLast? else none

/-- The names of what is in the directory at a path. -/
def list (t : FileTree) (path : String) : List String :=
  match t.locate path with
  | some place => (t.files.map (·.1) ++ t.directories).filterMap (nameIn place)
  | none => []

/-- The directories on the way to a place. -/
def above (place : Place) : List Place :=
  (List.range place.length).map fun n => place.take n

/-- The tree with a file at a path and all directories on the way there. -/
def plant (t : FileTree) (path : String) (bytes : List UInt8) : FileTree :=
  let place := (Path.split path).filter fun part => !Path.isIdle part
  let missing := (above place).filter fun directory => !t.hasDirectory directory
  { t with directories := t.directories ++ missing }.put place bytes

end FileTree

/-- A program that acts on a tree of files. -/
abbrev OnFiles := StateM FileTree

instance : Host OnFiles where
  read path := do return (← get).read path
  write path bytes := do
    match (← get).write path bytes with
    | some tree => set tree; return true
    | none => return false
  remove path := do
    match (← get).remove path with
    | some tree => set tree; return true
    | none => return false
  isDirectory path := do return (← get).isDirectory path
  list path := do return (← get).list path

end Core65C02
