/-!
# Survey geometry

The names by which a survey's traces are located: the four header fields that settings can move, the two
axes of lines, the three dimensions of a regular survey, and closed ranges of line numbers.
-/

namespace SegY

/-- A header field whose position settings can move. -/
inductive GeometryField where
  | inline
  | crossline
  | cdpX
  | cdpY
  deriving DecidableEq, Repr

namespace GeometryField

/-- The position of the field in the standard trace header. -/
def standardByte : GeometryField → Nat
  | inline => 188
  | crossline => 192
  | cdpX => 180
  | cdpY => 184

/-- The last position from which the four bytes of a field fit into a trace header. -/
def lastByte : Nat := 236

/-- The name of the position in messages. -/
def byteName : GeometryField → String
  | inline => "ilbyte"
  | crossline => "xlbyte"
  | cdpX => "cdpxbyte"
  | cdpY => "cdpybyte"

/-- The name of the field in messages about its range. -/
def name : GeometryField → String
  | inline => "inline"
  | crossline => "crossline"
  | cdpX => "cdpx"
  | cdpY => "cdpy"

end GeometryField

/-- A direction in which lines are numbered. -/
inductive Axis where
  | inline
  | crossline
  deriving DecidableEq, Repr

/-- The name of an axis in messages. -/
def Axis.name : Axis → String
  | inline => "inline"
  | crossline => "crossline"

/-- A dimension of a regular survey: crosslines, inlines, samples. -/
inductive Dimension where
  | x
  | y
  | z
  deriving DecidableEq, Repr

/-- The name of a dimension in messages. -/
def Dimension.name : Dimension → String
  | x => "dim_x"
  | y => "dim_y"
  | z => "dim_z"

/-- A closed range of line numbers. -/
structure Bounds where
  lowest : Int32
  highest : Int32
  deriving DecidableEq, Repr

/-- Whether a line number lies in the range. -/
def Bounds.contains (b : Bounds) (n : Int32) : Bool := b.lowest ≤ n && n ≤ b.highest

/-- What counts as the ordinal of a trace where a geometry is imposed. -/
inductive TraceOrder where
  /-- The position of the trace in the file. -/
  | position
  | sequenceInLine
  | sequenceInFile
  | fieldRecord
  | numberInFieldRecord
  | numberInEnsemble
  deriving DecidableEq, Repr

end SegY
