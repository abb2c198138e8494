import SegY.Directory
import SegY.File

/-!
# Readers

A `Reader` is a `File` that knows where its bytes come from.  An image that was handed over belongs to the
reader.  The bytes of a file that was opened by its path stay in the directory: the headers, the traces and
the length are those at the time of opening, but samples are read from what the file holds now.

`Reader.file` is the file with its present bytes.  It is the file as it was opened for as long as nothing
else was written into it (`Reader.file_eq_opened`).
-/

namespace SegY

/-- A file that is open for reading. -/
structure Reader where
  /-- The file as it was opened. -/
  opened : File
  /-- The file of the directory that holds the bytes, if the reader does not have its own. -/
  source : Option Location

namespace Reader

/-- Opens a file in memory. -/
def ofBytes (s : Settings) (b : Bytes) : Except Error Reader :=
  (File.ofBytes s b).map fun f => ⟨f, none⟩

/-- Opens the file that a path leads to. -/
def ofPath (d : Directory) (s : Settings) (path : Bytes) : Except Error Reader := do
  let l ← (d.find path).mapError .system
  let f ← File.ofBytes s ((d.get? l).getD [])
  return ⟨f, some l⟩

/-- The present bytes of a file, as many as there were when it was opened.  Bytes that are no longer there
count as zeros. -/
def presentImage (d : Directory) (l : Location) (size : Nat) : Image :=
  (Directory.resized ((d.get? l).getD []) size).toArray

/-- The file with its present bytes. -/
def file (r : Reader) (d : Directory) : File :=
  match r.source with
  | some l => { r.opened with image := presentImage d l r.opened.image.size }
  | none => r.opened

/-- A file whose bytes nobody changed is as it was opened. -/
theorem file_eq_opened {r : Reader} {d : Directory}
    (h : ∀ l, r.source = some l → d.get? l = some r.opened.image.toList) : r.file d = r.opened := by
  unfold file
  split
  · next l hl =>
    have hp : presentImage d l r.opened.image.size = r.opened.image := by
      rw [presentImage, h l hl, Option.getD_some, ← Array.length_toList, Directory.resized_length]
    rw [hp]
  · rfl

end Reader

end SegY
