/-!
# Hosts

What the assembler and the command line need of the machine they run on: files and directories by
their paths. They are written for any host, so that they can act on the files of a disk as well as
on a tree of files that is a value.
-/

namespace Core65C02

/-- A machine with files. -/
class Host (m : Type → Type) where
  /-- The bytes of a file, unless there is no such file. -/
  read : String → m (Option (List UInt8))
  /-- Creates or replaces a file; says whether that was possible. -/
  write : String → List UInt8 → m Bool
  /-- Removes a file; says whether there was one. -/
  remove : String → m Bool
  /-- Whether there is a directory. -/
  isDirectory : String → m Bool
  /-- The names of what is in a directory. -/
  list : String → m (List String)

end Core65C02
