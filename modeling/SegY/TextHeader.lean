import SegY.Bytes

/-!
# Text headers

The 3200 bytes of text at the start of a file, 40 lines of 80 characters.  It is either ASCII or EBCDIC, and
nothing in a file says which: if every byte is printable ASCII it is taken as it is, and otherwise every
byte is converted from EBCDIC.  The text ends before its first NUL.
-/

namespace SegY.TextHeader

/-- The length of a text header in bytes. -/
def size : Nat := 3200

/-- The length of a line in bytes. -/
def lineSize : Nat := 80

/-- The code page 037 in Latin-1, by code. -/
def codePage037 : Array UInt8 := #[
  0x00, 0x01, 0x02, 0x03, 0x9C, 0x09, 0x86, 0x7F, 0x97, 0x8D, 0x8E, 0x0B, 0x0C, 0x0D, 0x0E, 0x0F,
  0x10, 0x11, 0x12, 0x13, 0x9D, 0x85, 0x08, 0x87, 0x18, 0x19, 0x92, 0x8F, 0x1C, 0x1D, 0x1E, 0x1F,
  0x80, 0x81, 0x82, 0x83, 0x84, 0x0A, 0x17, 0x1B, 0x88, 0x89, 0x8A, 0x8B, 0x8C, 0x05, 0x06, 0x07,
  0x90, 0x91, 0x16, 0x93, 0x94, 0x95, 0x96, 0x04, 0x98, 0x99, 0x9A, 0x9B, 0x14, 0x15, 0x9E, 0x1A,
  0x20, 0xA0, 0xE2, 0xE4, 0xE0, 0xE1, 0xE3, 0xE5, 0xE7, 0xF1, 0xA2, 0x2E, 0x3C, 0x28, 0x2B, 0x7C,
  0x26, 0xE9, 0xEA, 0xEB, 0xE8, 0xED, 0xEE, 0xEF, 0xEC, 0xDF, 0x21, 0x24, 0x2A, 0x29, 0x3B, 0xAC,
  0x2D, 0x2F, 0xC2, 0xC4, 0xC0, 0xC1, 0xC3, 0xC5, 0xC7, 0xD1, 0xA6, 0x2C, 0x25, 0x5F, 0x3E, 0x3F,
  0xF8, 0xC9, 0xCA, 0xCB, 0xC8, 0xCD, 0xCE, 0xCF, 0xCC, 0x60, 0x3A, 0x23, 0x40, 0x27, 0x3D, 0x22,
  0xD8, 0x61, 0x62, 0x63, 0x64, 0x65, 0x66, 0x67, 0x68, 0x69, 0xAB, 0xBB, 0xF0, 0xFD, 0xFE, 0xB1,
  0xB0, 0x6A, 0x6B, 0x6C, 0x6D, 0x6E, 0x6F, 0x70, 0x71, 0x72, 0xAA, 0xBA, 0xE6, 0xB8, 0xC6, 0xA4,
  0xB5, 0x7E, 0x73, 0x74, 0x75, 0x76, 0x77, 0x78, 0x79, 0x7A, 0xA1, 0xBF, 0xD0, 0xDD, 0xDE, 0xAE,
  0x5E, 0xA3, 0xA5, 0xB7, 0xA9, 0xA7, 0xB6, 0xBC, 0xBD, 0xBE, 0x5B, 0x5D, 0xAF, 0xA8, 0xB4, 0xD7,
  0x7B, 0x41, 0x42, 0x43, 0x44, 0x45, 0x46, 0x47, 0x48, 0x49, 0xAD, 0xF4, 0xF6, 0xF2, 0xF3, 0xF5,
  0x7D, 0x4A, 0x4B, 0x4C, 0x4D, 0x4E, 0x4F, 0x50, 0x51, 0x52, 0xB9, 0xFB, 0xFC, 0xF9, 0xFA, 0xFF,
  0x5C, 0xF7, 0x53, 0x54, 0x55, 0x56, 0x57, 0x58, 0x59, 0x5A, 0xB2, 0xD4, 0xD6, 0xD2, 0xD3, 0xD5,
  0x30, 0x31, 0x32, 0x33, 0x34, 0x35, 0x36, 0x37, 0x38, 0x39, 0xB3, 0xDB, 0xDC, 0xD9, 0xDA, 0x9F]

/-- An EBCDIC character in Latin-1. -/
def ofEbcdic (c : UInt8) : UInt8 := codePage037.getD c.toNat 0

/-- Whether every byte is printable ASCII. -/
def isPrintable (b : Bytes) : Bool := b.all fun c => 0x20 ≤ c && c < 0x7F

/-- The text that bytes hold. -/
def decode (b : Bytes) : Bytes := (if isPrintable b then b else b.map ofEbcdic).untilNul

/-- The bytes of a text, padded with blanks to the length of a header. -/
def pad (text : Bytes) : Bytes := text ++ List.replicate (size - text.length) 0x20

/-- A text in lines; the last can be shorter. -/
def lines (text : Bytes) : List Bytes :=
  (List.range ((text.length + lineSize - 1) / lineSize)).map fun k =>
    Bytes.slice text (k * lineSize) lineSize

/-- A field of fixed width without the NULs that pad it. -/
def withoutNul (b : Bytes) : Bytes := b.filter (· != 0)

end SegY.TextHeader
