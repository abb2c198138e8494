import SegY.BinaryHeader
import SegY.TraceHeader

/-!
# Scanning for traces

A file does not say how many traces it has, so they are found by walking from one record to the next: a
trace header and its samples.  The walk has two modes.  In a file of fixed length the binary header tells
how many samples each record has; otherwise each trace header tells it for its own record.

`Scan.fixedStep` and `Scan.variableStep` say what is found at a position of the file.  They test the same
things in different orders, and differ in what a trace header means that cannot be read.  `Scan.walk`
follows the records; each lies inside the file, so the walk ends.
-/

namespace SegY

/-- A trace of a file: its header, and where its samples are. -/
structure Trace where
  header : TraceHeader
  /-- The position of the first byte of the samples. -/
  start : Nat
  /-- The length of the samples in bytes. -/
  length : Nat

/-- Why a scan stopped. -/
inductive ScanStop where
  | endOfFile
  | traceLimit
  | suspectedEndOfData
  | suspectedCorruption
  | headerFailure
  deriving DecidableEq, Repr

/-- The reason in words. -/
def ScanStop.description : ScanStop → String
  | endOfFile => "end of file"
  | traceLimit => "trace limit reached"
  | suspectedEndOfData => "suspected end of data"
  | suspectedCorruption => "suspected corruption"
  | headerFailure => "trace header failure"

/-- Where and why a scan stopped. -/
structure ScanReport where
  reason : ScanStop
  /-- The position at which the scan stopped. -/
  offset : Nat
  /-- The number of trace headers read, also of those that are not of interest. -/
  records : Nat
  /-- Why a trace header could not be read, if that is the reason. -/
  message : Bytes

/-- What a scan finds. -/
structure Scan where
  /-- The traces of interest, in the order of the file. -/
  traces : List Trace
  report : ScanReport
  /-- The binary header, as it describes the traces that were found. -/
  binary : BinaryHeader

/-- What is found at a position of the file. -/
inductive ScanStep (image : Image) (pos : Nat) where
  /-- A record, with the length of its samples; it lies inside the file. -/
  | record (header : TraceHeader) (length : Nat)
      (fits : pos + HeaderKind.trace.length + length ≤ image.size)
  | stop (reason : ScanStop) (message : Bytes)
  | fault (e : Error)

namespace Scan

variable (image : Image) (binary : BinaryHeader) (s : Settings)

/-- The length of a number of samples in bytes. -/
def dataLength (samples : UInt16) : Nat := binary.format.width * samples.toNat

/-- The trace header at a position of the file, as that of record `k`. -/
def headerAt (pos k : Nat) : Except ConversionError TraceHeader :=
  TraceHeader.ofBytes binary.order s k (image.slice pos HeaderKind.trace.length)

/-- Whether a whole record of fixed length at a position of the file has a header that can be read. -/
def probe (pos k : Nat) : Bool :=
  pos + HeaderKind.trace.length + dataLength binary binary.samples ≤ image.size &&
    (headerAt image binary s pos k).isOk

/-- What is found in a file of fixed length.  A header after the first that cannot be read is either the end
of the traces or a damaged one; it counts as damaged if the record after it can be read. -/
def fixedStep (pos k : Nat) : ScanStep image pos :=
  let length := dataLength binary binary.samples
  if fits : pos + HeaderKind.trace.length + length ≤ image.size then
    if s.maxTraceCount ≤ k then .stop .traceLimit []
    else
      match headerAt image binary s pos k with
      | .ok header => .record header length fits
      | .error e =>
        if k = 0 then .fault (.conversion e)
        else if probe image binary s (pos + HeaderKind.trace.length + length) (k + 1) then
          .stop .suspectedCorruption (Error.conversion e).text
        else .stop .suspectedEndOfData (Error.conversion e).text
  else .stop .endOfFile []

/-- What is found in a file whose traces differ in length. -/
def variableStep (pos k : Nat) : ScanStep image pos :=
  if s.maxTraceCount ≤ k then .stop .traceLimit []
  else if image.size < pos + HeaderKind.trace.length then .stop .endOfFile []
  else
    match headerAt image binary s pos k with
    | .ok header =>
      let length := dataLength binary header.samples
      if fits : pos + HeaderKind.trace.length + length ≤ image.size then .record header length fits
      else .fault (.malformed
        (.incompleteTrace k pos (HeaderKind.trace.length + length) (image.size - pos)))
    | .error e => .stop .headerFailure (Error.conversion e).text

/-- What is found at a position of the file, in the mode that the binary header tells. -/
def step (pos k : Nat) : ScanStep image pos :=
  if binary.fixedLength then fixedStep image binary s pos k else variableStep image binary s pos k

/-- The trace of a record, if its lines are of interest; settings can cut it short. -/
def trace? (pos : Nat) (header : TraceHeader) (length : Nat) : Option Trace :=
  if s.inBounds header.inline header.crossline then
    match s.dimZ with
    | some z => some ⟨header.withSamples z, pos + HeaderKind.trace.length,
        min length (binary.format.width * z)⟩
    | none => some ⟨header, pos + HeaderKind.trace.length, length⟩
  else none

/-- The traces from record `k` on, which is at a position of the file, and the report. -/
def walk (pos k : Nat) : Except Error (List Trace × ScanReport) :=
  match step image binary s pos k with
  | .stop reason message => .ok ([], ⟨reason, pos, k, message⟩)
  | .fault e => .error e
  | .record header length _ =>
    match walk (pos + HeaderKind.trace.length + length) (k + 1) with
    | .ok (traces, report) => .ok ((trace? binary s pos header length).toList ++ traces, report)
    | .error e => .error e
termination_by image.size - pos
decreasing_by
  simp only [HeaderKind.length] at *
  omega

/-- The binary header of traces that settings cut short: all have the same length. -/
def cut : BinaryHeader :=
  match s.dimZ with
  | some z => { binary.withSamples z with fixedLength := true }
  | none => binary

end Scan

/-- The traces of a file whose first trace header is at a position of it. -/
def scan (image : Image) (first : Nat) (binary : BinaryHeader) (s : Settings) : Except Error Scan :=
  (Scan.walk image binary s first 0).map fun (traces, report) =>
    ⟨traces, report, Scan.cut binary s⟩

end SegY
