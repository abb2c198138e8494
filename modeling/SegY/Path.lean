import SegY.Error

/-!
# Paths

A path is a byte string that tells the way to a file: names with slashes between them.  The way starts in
the folder at hand, or in the root if the path starts with a slash.  Repeated slashes count as one, the
name `.` stays in a folder, and `..` goes up from it.

The only folders that are known are the one at hand, those above it, and the root.  So a way ends early at
every other name that is not the last one of its path (`Path.follow`), and what remains of a path that does
not end early is a folder or the `Location` of a file, whether there is one or not (`Path.destination`).
Different paths can lead to one location.
-/

namespace SegY

/-- A folder that a path can lead through. -/
inductive Folder where
  /-- So many levels above the folder at hand. -/
  | above (levels : Nat)
  | root
  deriving DecidableEq, Repr

namespace Folder

/-- The folder at hand. -/
def here : Folder := above 0

/-- The folder that holds a folder; the root holds itself. -/
def parent : Folder → Folder
  | above levels => above (levels + 1)
  | root => root

end Folder

/-- Where a file is. -/
structure Location where
  folder : Folder
  /-- The name in the folder. -/
  name : Bytes
  deriving DecidableEq, Repr

/-- The length of the longest name. -/
def Location.nameLimit : Nat := 255

/-- Whether the name is longer than names can be. -/
def Location.isTooLong (l : Location) : Bool := nameLimit < l.name.length

/-- What a path leads to. -/
inductive Destination where
  | folder
  /-- A file or where one can be; the path can demand a folder there by a slash at its end. -/
  | file (l : Location) (asFolder : Bool)
  | nowhere (cause : SystemCause)
  deriving DecidableEq, Repr

namespace Path

/-- The length of the longest path. -/
def limit : Nat := 4095

/-- The byte between names. -/
def slash : UInt8 := 0x2F

/-- The pieces of a path between its slashes. -/
def pieces : Bytes → List Bytes
  | [] => [[]]
  | c :: rest =>
    if c = slash then [] :: pieces rest
    else
      match pieces rest with
      | [] => [[c]]
      | piece :: more => (c :: piece) :: more

/-- The names of a path. -/
def names (path : Bytes) : List Bytes := (pieces path).filter (!·.isEmpty)

/-- The name that stays in a folder. -/
def self : Bytes := .ofText "."

/-- The name that goes up from a folder. -/
def up : Bytes := .ofText ".."

/-- What names lead to from a folder, where these files are. -/
def follow (isFile : Location → Bool) (asFolder : Bool) (folder : Folder) : List Bytes → Destination
  | [] => .folder
  | name :: rest =>
    if name = self then follow isFile asFolder folder rest
    else if name = up then follow isFile asFolder folder.parent rest
    else if rest.isEmpty then .file ⟨folder, name⟩ asFolder
    else if (Location.mk folder name).isTooLong then .nowhere .nameTooLong
    else if isFile ⟨folder, name⟩ then .nowhere .notADirectory
    else .nowhere .noSuchFile

/-- The folder in which a path starts. -/
def start (path : Bytes) : Folder := if path.head? = some slash then .root else .here

/-- What a path leads to, where these files are.  A path ends before its first NUL. -/
def destination (isFile : Location → Bool) (path : Bytes) : Destination :=
  let path := path.untilNul
  if path.isEmpty then .nowhere .noSuchFile
  else if limit < path.length then .nowhere .nameTooLong
  else follow isFile (path.getLast? == some slash) (start path) (names path)

end Path

end SegY
