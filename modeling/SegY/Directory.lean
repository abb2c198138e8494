import SegY.Path

/-!
# A directory of files

The files that paths lead to, and a limit on how long a file can become.  A file is found or made by a
path, and from then on known by its location (`Directory.find`, `Directory.create`).

A write that would make a file longer than the limit stores what fits and then fails; nothing else of a file
is ever lost by a write.
-/

namespace SegY

/-- A directory of files. -/
structure Directory where
  /-- The files with their locations; a location occurs at most once. -/
  files : List (Location × Bytes) := []
  /-- The greatest length that a write can give to a file. -/
  limit : Option Nat := none

namespace Directory

/-- The bytes of a file in a list of files. -/
def lookup (l : Location) : List (Location × Bytes) → Option Bytes
  | [] => none
  | file :: rest => if file.1 = l then some file.2 else lookup l rest

/-- A list of files with other bytes for one of them, or with one more. -/
def replace (l : Location) (content : Bytes) : List (Location × Bytes) → List (Location × Bytes)
  | [] => [(l, content)]
  | file :: rest => if file.1 = l then (l, content) :: rest else file :: replace l content rest

/-- The bytes of a file. -/
def get? (d : Directory) (l : Location) : Option Bytes := lookup l d.files

/-- The directory with other bytes for a file, which is new if there was none. -/
def put (d : Directory) (l : Location) (content : Bytes) : Directory :=
  { d with files := replace l content d.files }

theorem lookup_replace (l : Location) (content : Bytes) (files : List (Location × Bytes)) :
    lookup l (replace l content files) = some content := by
  induction files with
  | nil => simp [replace, lookup]
  | cons file rest ih => by_cases h : file.1 = l <;> simp [replace, lookup, h, ih]

theorem lookup_replace_of_ne {l other : Location} (h : other ≠ l) (content : Bytes)
    (files : List (Location × Bytes)) : lookup other (replace l content files) = lookup other files := by
  induction files with
  | nil => simp [replace, lookup, h.symm]
  | cons file rest ih =>
    by_cases hl : file.1 = l
    · subst hl
      simp [replace, lookup, h.symm]
    · simp [replace, lookup, hl, ih]

theorem replace_of_lookup {l : Location} {content : Bytes} {files : List (Location × Bytes)}
    (h : lookup l files = some content) : replace l content files = files := by
  induction files with
  | nil => simp [lookup] at h
  | cons file rest ih =>
    obtain ⟨place, bytes⟩ := file
    by_cases hl : place = l
    · simp [lookup, hl] at h
      simp [replace, hl, h]
    · simp [lookup, hl] at h
      simp [replace, hl, ih h]

theorem replace_replace (l : Location) (content old : Bytes) (files : List (Location × Bytes)) :
    replace l content (replace l old files) = replace l content files := by
  induction files with
  | nil => simp [replace]
  | cons file rest ih => by_cases h : file.1 = l <;> simp [replace, h, ih]

/-- What was put into a file is there. -/
theorem get?_put (d : Directory) (l : Location) (content : Bytes) :
    (d.put l content).get? l = some content :=
  lookup_replace _ _ _

/-- Other files are as they were. -/
theorem get?_put_of_ne {d : Directory} {l other : Location} (h : other ≠ l) (content : Bytes) :
    (d.put l content).get? other = d.get? other :=
  lookup_replace_of_ne h _ _

/-- To put into a file what is there changes nothing. -/
theorem put_of_get? {d : Directory} {l : Location} {content : Bytes} (h : d.get? l = some content) :
    d.put l content = d := by
  simp only [put, replace_of_lookup h]

/-- Of what was put into a file the last remains. -/
theorem put_put (d : Directory) (l : Location) (old content : Bytes) :
    (d.put l old).put l content = d.put l content := by
  simp only [put, replace_replace]

/-- Whether there is a file. -/
def has (d : Directory) (l : Location) : Bool := (d.get? l).isSome

/-- What a path leads to. -/
def destination (d : Directory) (path : Bytes) : Destination := Path.destination d.has path

/-- The file that a path leads to, to be read. -/
def find (d : Directory) (path : Bytes) : Except SystemError Location :=
  match d.destination path with
  | .nowhere cause => .error (.unopened path cause)
  | .folder => .error (.unmapped path .noSuchDevice)
  | .file l asFolder =>
    if l.isTooLong then .error (.unopened path .nameTooLong)
    else if !d.has l then .error (.unopened path .noSuchFile)
    else if asFolder then .error (.unopened path .notADirectory)
    else .ok l

/-- The bytes of the file that a path leads to. -/
def read (d : Directory) (path : Bytes) : Except SystemError Bytes :=
  (d.find path).map fun l => (d.get? l).getD []

/-- Where a path can make a new file. -/
def vacancy (d : Directory) (path : Bytes) : Except SystemCause Location :=
  match d.destination path with
  | .nowhere cause => .error cause
  | .folder => .error .fileExists
  | .file l asFolder =>
    if asFolder then .error .isADirectory
    else if l.isTooLong then .error .nameTooLong
    else if d.has l then .error .fileExists
    else .ok l

/-- Makes a new file without bytes. -/
def create (d : Directory) (path : Bytes) : Except SystemError (Directory × Location) :=
  match d.vacancy path with
  | .ok l => .ok (d.put l [], l)
  | .error cause => .error (.uncreated path cause)

/-- How many of the bytes can be written at a position. -/
def room (d : Directory) (pos length : Nat) : Nat :=
  match d.limit with
  | some limit => min length (limit - pos)
  | none => length

/-- Bytes cut or filled with zeros to a length. -/
def resized (content : Bytes) (length : Nat) : Bytes :=
  content.take length ++ List.replicate (length - content.length) 0

/-- Bytes of the right length stay as they are. -/
theorem resized_length (content : Bytes) : resized content content.length = content := by
  simp [resized]

/-- Bytes with a piece written over those at a position; a gap before it is filled with zeros. -/
def patched (content : Bytes) (pos : Nat) (piece : Bytes) : Bytes :=
  resized content pos ++ piece ++ content.drop (pos + piece.length)

/-- Writes as many of the bytes as there is room for, and says whether these were all. -/
def write (d : Directory) (l : Location) (pos : Nat) (piece : Bytes) : Directory × Bool :=
  let stored := piece.take (d.room pos piece.length)
  let content := (d.get? l).getD []
  let content' := if stored.isEmpty then content else patched content pos stored
  (d.put l content', stored.length == piece.length)

/-- Gives a file a length, unless that would make it longer than the limit. -/
def truncate (d : Directory) (l : Location) (length : Nat) : Directory × Bool :=
  let content := (d.get? l).getD []
  if content.length < length && d.limit.any (· < length) then (d, false)
  else (d.put l (resized content length), true)

/-- Gives a file, old or new, these bytes, as far as there is room for them.  A path that cannot lead to a
file changes nothing. -/
def store (d : Directory) (path content : Bytes) : Directory :=
  match d.destination path with
  | .file l false =>
    if l.isTooLong then d else d.put l (content.take (d.room 0 content.length))
  | _ => d

end Directory

end SegY
