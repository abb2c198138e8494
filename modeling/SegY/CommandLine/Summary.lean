import SegY.CommandLine.Argument
import SegY.Directory
import SegY.File

/-!
# The summary of a file

What the command line does.  `Request.ofArguments` reads the arguments: options take effect in their order,
and the first that is wrong, or that asks for help or the version, decides.  `summary` is what is said of a
file.  Nothing is printed of a file that cannot be opened, so a failure has no standard output.
-/

namespace SegY.CommandLine

/-- What a run leaves behind. -/
structure Outcome where
  status : UInt8
  stdout : Bytes
  stderr : Bytes
  deriving DecidableEq, Repr

/-- What the arguments ask for. -/
structure Request where
  settings : Settings := {}
  /-- Whether to print the text header. -/
  text : Bool := false

/-- The name of the program. -/
def programName : String := "seisio-info"

/-- How to call the program. -/
def usage : String :=
  "usage: seisio-info [OPTS...] FILE\n\n" ++
  "print a summary of a SEG-Y file: tape label, binary header,\n" ++
  "trace count and line ranges\n" ++
  "\n" ++
  "byte positions are 1-based, as in the SEG-Y standard\n" ++
  "\n" ++
  "options: \n" ++
  "-i, --iline BYTE      inline number position (default: 189)\n" ++
  "-x, --xline BYTE      crossline number position (default: 193)\n" ++
  "-X, --cdpx BYTE       cdp-x position (default: 181)\n" ++
  "-Y, --cdpy BYTE       cdp-y position (default: 185)\n" ++
  "-f, --format N        force sample format code N\n" ++
  "-s, --step N          read every N-th sample\n" ++
  "-L, --lsb             force little-endian\n" ++
  "-M, --msb             force big-endian\n" ++
  "-t, --text            print the text header\n" ++
  "-V, --version         print version\n" ++
  "-h, --help            this text\n"

/-- A run that only prints. -/
def Outcome.success (text : String) : Outcome := ⟨0, .ofText text, []⟩

/-- A run that fails with a line of complaint. -/
def Outcome.failure (complaint : Bytes) : Outcome := ⟨1, [], complaint ++ .ofText "\n"⟩

/-- A run that fails because of how the program was called. -/
def Outcome.misuse (complaint : Bytes) : Outcome := ⟨1, [], complaint ++ .ofText usage⟩

/-- The positive integer that is the value of an option. -/
def positiveValue (f : Flag) (value : Bytes) : Except Outcome Int32 :=
  match positive? value with
  | some n => .ok n
  | none =>
    .error (.failure
      (.ofText s!"{f.name}: expected positive integer, was '" ++ value ++ .ofText "'"))

namespace Request

/-- The request with one more setting. -/
def set (r : Request) (x : Setting) : Except Outcome Request :=
  match r.settings.apply x with
  | .ok s => .ok { r with settings := s }
  | .error e => .error (.failure (Error.settings e).text)

/-- The request after one more item. -/
def add (r : Request) : Item → Except Outcome Request
  | .fault complaint =>
    .error (.misuse (.ofText s!"{programName}: " ++ complaint ++ .ofText "\n"))
  | .flag f value =>
    match f with
    | .byte g => do r.set (.byte g ((← positiveValue f value) - 1))
    | .format => do
      match SampleFormat.ofCode? (← positiveValue f value).toInt with
      | some format => r.set (.format format)
      | none =>
        .error (.failure
          (Error.unknownCode (.sampleFormat (← positiveValue f value).toInt)).text)
    | .step => do r.set (.step (UInt64.ofNat (← positiveValue f value).toInt.toNat))
    | .littleEndian => r.set (.endianness .little)
    | .bigEndian => r.set (.endianness .big)
    | .text => .ok { r with text := true }
    | .version => .error (.success s!"{programName} (seisio version 0.1.0)\n")
    | .help => .error (.success usage)

/-- The request that arguments make, and the name of the file; or what they lead to without a file. -/
def ofArguments (arguments : List Bytes) : Except Outcome (Request × Bytes) := do
  let (found, operands) := items none arguments
  let r ← found.foldlM add {}
  match operands with
  | [name] => .ok (r, name)
  | _ => .error (.misuse [])

end Request

/-- A line with a heading, which is padded with blanks to a width. -/
def line (width : Nat) (heading : String) (content : Bytes) : Bytes :=
  .ofText (heading ++ String.ofList (List.replicate (width - heading.length) ' ')) ++ content ++
    .ofText "\n"

/-- The lines about a tape label. -/
def labelLines (l : TapeLabel) : Bytes :=
  .ofText "tape label:\n" ++
    line 20 "  sequence number:" (l.text .sequenceNumber) ++
    line 20 "  revision:" (l.text .revision) ++
    line 20 "  structure:" (l.text .structureType) ++
    line 20 "  binding:" (l.text .binding) ++
    line 20 "  max block size:" (.ofText (toString l.maxBlockSize)) ++
    line 20 "  producer:" (l.text .producer) ++
    line 20 "  creation date:" (l.text .creationDate) ++
    line 20 "  serial number:" (l.text .serialNumber) ++
    line 20 "  external label:" (l.text .externalLabel) ++
    line 20 "  recording entity:" (l.text .recordingEntity)

/-- A line about a file. -/
def fileLine (heading content : String) : Bytes := line 18 heading (.ofText content)

/-- The lines about a binary header. -/
def binaryLines (b : BinaryHeader) : Bytes :=
  let order := match b.order with
    | .little => "little-endian"
    | .big => "big-endian"
  fileLine "format:" s!"{b.format.description} ({b.format.code})" ++
    fileLine "byte order:" order ++
    fileLine "samples:" (toString b.samples) ++
    fileLine "sample interval:" (toString b.interval) ++
    fileLine "trace length:" (if b.fixedLength then "fixed" else "variable") ++
    fileLine "revision:" s!"{b.revision.1}.{b.revision.2}" ++
    fileLine "extended headers:" (toString b.extendedHeaders)

/-- The heading of the range of a geometry field. -/
def rangeHeading : GeometryField → String
  | .inline => "inlines:"
  | .crossline => "crosslines:"
  | .cdpX => "cdp-x:"
  | .cdpY => "cdp-y:"

/-- The value of a geometry field in the trace of an index. -/
def valueAt (f : File) (g : GeometryField) (i : Nat) : Int32 :=
  match f.trace i with
  | .ok t => t.header.geometry g
  | .error _ => 0

/-- The line about the range of a geometry field; there is none in a file without traces. -/
def rangeLine (f : File) (g : GeometryField) : Bytes :=
  match f.extremes g with
  | .ok (lowest, highest) =>
    fileLine (rangeHeading g) s!"{valueAt f g lowest} - {valueAt f g highest}"
  | .error _ => []

/-- Whether the scan of a file came to an end that needs no warning. -/
def isComplete : ScanStop → Bool
  | .endOfFile | .traceLimit => true
  | .suspectedEndOfData | .suspectedCorruption | .headerFailure => false

/-- What is said of a file. -/
def summary (name : Bytes) (f : File) (text : Bool) : Bytes :=
  let report := f.report
  let label : Bytes := match f.label with
    | some l => labelLines l
    | none => []
  let lines : Bytes := if text then
      .ofText "\n" ++ (f.textLines.map fun l => l ++ Bytes.ofText "\n").flatten
    else []
  line 18 "file:" name ++ label ++ binaryLines f.binary ++
    fileLine "traces:" (toString f.size) ++
    fileLine "scan:"
      s!"{report.reason.description} at byte {report.offset} after {report.records} records" ++
    rangeLine f .inline ++ rangeLine f .crossline ++ rangeLine f .cdpX ++ rangeLine f .cdpY ++ lines

/-- The warning about a file whose scan stopped early. -/
def warning (name : Bytes) (f : File) : Bytes :=
  let report := f.report
  if isComplete report.reason then []
  else
    .ofText "warning: " ++ name ++
      .ofText s!": scan stopped early ({report.reason.description}): " ++ report.message ++
      .ofText "\n"

/-- What a run leaves behind that asks for a file, given the bytes of the file. -/
def Request.run (r : Request) (name : Bytes) (content : Except SystemError Bytes) : Outcome :=
  match (content.mapError .system).bind (File.ofBytes r.settings) with
  | .ok f => ⟨0, summary name f r.text, warning name f⟩
  | .error e => .failure (name ++ .ofText ": " ++ e.text)

/-- What a run leaves behind in a directory. -/
def run (d : Directory) (arguments : List Bytes) : Outcome :=
  match Request.ofArguments arguments with
  | .ok (r, name) => r.run name (d.read name)
  | .error outcome => outcome

end SegY.CommandLine
