/-!
# Paths

A path is a text whose parts are separated by slashes. Empty parts and single dots mean nothing; the
file name is the last part, unless that leads one level up.
-/

namespace Core65C02.Path

/-- The parts between the slashes of a path, `part` being what was read of the first one, in
reverse. -/
def splitAfter (part : List Char) : List Char → List String
  | [] => [String.ofList part.reverse]
  | c :: rest =>
    if c = '/' then String.ofList part.reverse :: splitAfter [] rest
    else splitAfter (c :: part) rest

/-- All parts between the slashes of a path. -/
def split (path : String) : List String := splitAfter [] path.toList

/-- Whether a part means nothing. -/
def isIdle (part : String) : Bool := part == "" || part == "."

/-- The file name at the end of a path. -/
def fileName? (path : String) : Option String :=
  ((split path).filter fun part => !isIdle part).getLast?.filter fun part => part != ".."

/-- A file name without and with what follows its last dot. A dot in front does not count. -/
def splitExtension (name : String) : String × Option String :=
  let reversed := name.toList.reverse
  match reversed.dropWhile fun c => c != '.' with
  | [] | [_] => (name, none)
  | _ :: stem =>
    (String.ofList stem.reverse,
      some (String.ofList (reversed.takeWhile fun c => c != '.').reverse))

/-- The file name at the end of a path, up to its last dot. -/
def stem? (path : String) : Option String :=
  (fileName? path).map fun name => (splitExtension name).1

/-- What follows the last dot of the file name at the end of a path. -/
def extension? (path : String) : Option String :=
  (fileName? path).bind fun name => (splitExtension name).2

/-- The path of a name in a directory. -/
def join (directory name : String) : String :=
  if directory.endsWith "/" then directory ++ name else directory ++ "/" ++ name

end Core65C02.Path
