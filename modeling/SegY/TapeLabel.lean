import SegY.Error
import SegY.TextHeader

/-!
# The tape label

The 128 bytes that can precede the text header of a file that was once on tape.  All fields are text and
are kept as they are (`LabelField`), but the largest block size is a number: ten characters which, without
the NULs and the white space around them, have to be decimal digits.  It is written with leading zeros.

Nothing marks a label as such.  A text header starts with a C in practically every file, so a file has a
label if it does not start with a C, but has one where the text header would be after a label.
-/

namespace SegY

/-- A text field of the label. -/
inductive LabelField where
  | sequenceNumber
  | revision
  | structureType
  | binding
  | producer
  | creationDate
  | serialNumber
  | externalLabel
  | recordingEntity
  | userDefined
  deriving DecidableEq, Repr

namespace LabelField

/-- All fields, by position. -/
def all : List LabelField :=
  [sequenceNumber, revision, structureType, binding, producer, creationDate, serialNumber, externalLabel,
    recordingEntity, userDefined]

/-- The position of the first byte. -/
def start : LabelField → Nat
  | sequenceNumber => 0
  | revision => 4
  | structureType => 9
  | binding => 15
  | producer => 29
  | creationDate => 39
  | serialNumber => 50
  | externalLabel => 68
  | recordingEntity => 80
  | userDefined => 104

/-- The width in bytes. -/
def width : LabelField → Nat
  | sequenceNumber => 4
  | revision => 5
  | structureType => 6
  | binding => 4
  | producer => 10
  | creationDate => 11
  | serialNumber => 12
  | externalLabel => 12
  | recordingEntity => 24
  | userDefined => 14

theorem mem_all (f : LabelField) : f ∈ all := by
  cases f <;> decide

end LabelField

/-- A tape label. -/
structure TapeLabel where
  /-- The text fields, with the NULs that pad them. -/
  field : (f : LabelField) → Vector UInt8 f.width
  /-- The largest block size. -/
  maxBlockSize : UInt64

namespace TapeLabel

/-- A label of which nothing is set. -/
def blank : TapeLabel where
  field f := Vector.replicate f.width 0
  maxBlockSize := 0

instance : Inhabited TapeLabel := ⟨blank⟩

/-- Whether two labels agree in every field. -/
def beq (a b : TapeLabel) : Bool :=
  LabelField.all.all (fun f => a.field f == b.field f) && a.maxBlockSize == b.maxBlockSize

instance : BEq TapeLabel := ⟨beq⟩

/-- A field as a text, without the NULs that pad it. -/
def text (l : TapeLabel) (f : LabelField) : Bytes := TextHeader.withoutNul (l.field f).toList

/-- Whether a byte is a C in ASCII or in EBCDIC. -/
def isC (c : UInt8) : Bool := c == 0x43 || TextHeader.ofEbcdic c == 0x43

/-- Whether a file starts with a label. -/
def isPresent (image : Image) : Bool :=
  match image[0]?, image[HeaderKind.label.length]? with
  | some first, some c => !isC first && isC c
  | _, _ => false

/-- The position of the largest block size. -/
def blockSizeStart : Nat := 19

/-- The width of the largest block size. -/
def blockSizeWidth : Nat := 10

/-- The first block size that has too many digits. -/
def blockSizeLimit : Nat := 10000000000

/-- Whether a byte pads a number: NUL and white space. -/
def isBlank (c : UInt8) : Bool := c == 0 || c == 0x20 || (0x09 ≤ c && c ≤ 0x0D)

/-- Whether a byte is a decimal digit. -/
def isDigit (c : UInt8) : Bool := 0x30 ≤ c && c ≤ 0x39

/-- Bytes without the blanks at both ends. -/
def trim (b : Bytes) : Bytes :=
  ((b.dropWhile isBlank).reverse.dropWhile isBlank).reverse

/-- The number that decimal digits spell. -/
def ofDigits (b : Bytes) : Nat := b.foldl (fun n c => 10 * n + (c.toNat - 0x30)) 0

/-- The decimal digits of a number, with leading zeros to a width. -/
def toDigits : Nat → Nat → Bytes
  | 0, _ => []
  | width + 1, n => toDigits width (n / 10) ++ [UInt8.ofNat (0x30 + n % 10)]

/-- The label that 128 bytes hold. -/
def ofBytes (b : Bytes) : Except HeaderError TapeLabel :=
  let digits := trim (Bytes.slice b blockSizeStart blockSizeWidth)
  if digits.isEmpty || !digits.all isDigit then .error (.blockSizeText digits)
  else .ok {
    field := fun f => Vector.ofFn fun i => b.getD (f.start + i) 0
    maxBlockSize := UInt64.ofNat (ofDigits digits) }

/-- The label that bytes hold, if they are as many as a label has. -/
def decode (b : Bytes) : Except Error TapeLabel :=
  if b.length = HeaderKind.label.length then (ofBytes b).mapError .header
  else .error (.malformed (.headerLength .label b.length))

/-- The parts of a label with their positions. -/
def pieces (l : TapeLabel) : List (Nat × Bytes) :=
  LabelField.all.map (fun f => (f.start, (l.field f).toList)) ++
    [(blockSizeStart, toDigits blockSizeWidth l.maxBlockSize.toNat)]

/-- The 128 bytes that hold a label, unless the largest block size has too many digits. -/
def toBytes (l : TapeLabel) : Except HeaderError Bytes :=
  if l.maxBlockSize.toNat < blockSizeLimit then
    .ok (Bytes.assemble HeaderKind.label.length l.pieces)
  else .error (.blockSizeRange l.maxBlockSize.toNat)

end TapeLabel

end SegY
