import SegY.Geometry
import SegY.TapeLabel

/-!
# Arguments of the command line

The arguments are options and operands in any order; after `--` all are operands.  An option is a letter
after `-`, where letters can share an argument, or a name after `--`, of which any beginning will do that
belongs to one name only.  What an option takes is the rest of its argument (`-i5`, `--iline=5`) or the
argument after it.

`items` reads the arguments from left to right into what they ask for (`Item`) and the operands.  What
comes after a `fault` is never looked at.
-/

namespace SegY.CommandLine

/-- What an option asks for. -/
inductive Flag where
  /-- The position of a geometry field. -/
  | byte (g : GeometryField)
  | format
  | step
  | littleEndian
  | bigEndian
  | text
  | version
  | help
  deriving DecidableEq, Repr

namespace Flag

/-- All options, in the order in which they are listed. -/
def all : List Flag :=
  [byte .inline, byte .crossline, byte .cdpX, byte .cdpY, format, step, littleEndian, bigEndian, text,
    version, help]

/-- The name of an option. -/
def name : Flag → String
  | byte .inline => "iline"
  | byte .crossline => "xline"
  | byte .cdpX => "cdpx"
  | byte .cdpY => "cdpy"
  | format => "format"
  | step => "step"
  | littleEndian => "lsb"
  | bigEndian => "msb"
  | text => "text"
  | version => "version"
  | help => "help"

/-- The letter of an option. -/
def letter : Flag → Char
  | byte .inline => 'i'
  | byte .crossline => 'x'
  | byte .cdpX => 'X'
  | byte .cdpY => 'Y'
  | format => 'f'
  | step => 's'
  | littleEndian => 'L'
  | bigEndian => 'M'
  | text => 't'
  | version => 'V'
  | help => 'h'

/-- Whether an option takes a value. -/
def takesValue : Flag → Bool
  | byte _ | format | step => true
  | littleEndian | bigEndian | text | version | help => false

end Flag

/-- What an argument asks for. -/
inductive Item where
  /-- An option with its value, which is empty if it takes none. -/
  | flag (f : Flag) (value : Bytes)
  /-- Arguments that cannot be read, with a complaint. -/
  | fault (complaint : Bytes)
  deriving DecidableEq, Repr

/-- An option whose value is the next argument, and the complaint if there is none. -/
structure Pending where
  flag : Flag
  complaint : Bytes
  deriving DecidableEq, Repr

/-- What a single argument says. -/
inductive Argument where
  | operand
  /-- All further arguments are operands. -/
  | separator
  /-- Options, the last of which can still lack its value. -/
  | options (items : List Item) (pending : Option Pending)
  deriving DecidableEq, Repr

/-- The options of which the name begins like this; the whole name of an option means it alone. -/
def candidates (name : Bytes) : List Flag :=
  match Flag.all.filter (fun f => name == Bytes.ofText f.name) with
  | [] => Flag.all.filter (fun f => name.isPrefixOf (Bytes.ofText f.name))
  | exact => exact

/-- What an argument says that begins with two dashes; `text` is what follows these. -/
def longOption (text : Bytes) : Argument :=
  let name := text.takeWhile (· != 0x3D)
  let value := text.drop name.length
  match candidates name with
  | [] => .options [.fault (.ofText "unrecognized option '--" ++ text ++ .ofText "'")] none
  | [f] =>
    match value with
    | [] =>
      if f.takesValue then
        .options [] (some ⟨f, .ofText s!"option '--{f.name}' requires an argument"⟩)
      else .options [.flag f []] none
    | _ :: value =>
      if f.takesValue then .options [.flag f value] none
      else .options [.fault (.ofText s!"option '--{f.name}' doesn't allow an argument")] none
  | several =>
    let names := several.map fun f => s!" '--{f.name}'"
    .options [.fault (.ofText "option '--" ++ text ++
      .ofText ("' is ambiguous; possibilities:" ++ String.join names))] none

/-- What letters after a single dash say. -/
def letterOptions : Bytes → List Item × Option Pending
  | [] => ([], none)
  | c :: rest =>
    match Flag.all.find? (fun f => UInt8.ofNat f.letter.toNat == c) with
    | none => ([.fault (.ofText "invalid option -- '" ++ [c] ++ .ofText "'")], none)
    | some f =>
      if f.takesValue then
        if rest.isEmpty then
          ([], some ⟨f, .ofText s!"option requires an argument -- '{f.letter}'"⟩)
        else ([.flag f rest], none)
      else
        let (items, pending) := letterOptions rest
        (.flag f [] :: items, pending)

/-- What an argument says. -/
def readArgument : Bytes → Argument
  | [0x2D, 0x2D] => .separator
  | 0x2D :: 0x2D :: text => longOption text
  | 0x2D :: c :: letters =>
    let (items, pending) := letterOptions (c :: letters)
    .options items pending
  | _ => .operand

/-- What arguments ask for, and the operands among them, after an option that may lack its value. -/
def items : Option Pending → List Bytes → List Item × List Bytes
  | none, [] => ([], [])
  | some p, [] => ([.fault p.complaint], [])
  | some p, value :: rest =>
    let (found, operands) := items none rest
    (.flag p.flag value :: found, operands)
  | none, a :: rest =>
    match readArgument a with
    | .operand =>
      let (found, operands) := items none rest
      (found, a :: operands)
    | .separator => ([], rest)
    | .options here pending =>
      let (found, operands) := items pending rest
      (here ++ found, operands)

/-- The integer that a text spells in decimal: white space, a sign, digits, and nothing else. -/
def integer? (b : Bytes) : Option Int :=
  let text := b.dropWhile fun c => c == 0x20 || (0x09 ≤ c && c ≤ 0x0D)
  let (negative, digits) :=
    match text with
    | 0x2D :: digits => (true, digits)
    | 0x2B :: digits => (false, digits)
    | digits => (false, digits)
  if digits.isEmpty || !digits.all TapeLabel.isDigit then none
  else some (Number.signed negative (TapeLabel.ofDigits digits))

/-- The positive 32-bit integer that a text spells. -/
def positive? (b : Bytes) : Option Int32 :=
  match integer? b with
  | some n => if 1 ≤ n ∧ n ≤ Int32.maxValue.toInt then some (Int32.ofInt n) else none
  | none => none

end SegY.CommandLine
