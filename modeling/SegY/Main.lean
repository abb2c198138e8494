import SegY.CommandLine.Summary

/-!
# The program

Reads the arguments and the file that they name, and prints what the library says of it.
-/

namespace SegY.CommandLine

/-- Why the file of a name cannot be read.  An error that does not name the file arose after it was opened:
there is something of the name, but it has no bytes. -/
def refusal (name : Bytes) : IO.Error → SystemError
  | .noFileOrDirectory .. => .unopened name .noSuchFile
  | .inappropriateType (some _) .. => .unopened name .notADirectory
  | .inappropriateType none .. => .unmapped name .noSuchDevice
  | .invalidArgument .. => .unopened name .nameTooLong
  | e => .unopened name (.other (toString e))

/-- The bytes of the file of a name. -/
def readFile (name : String) : IO (Except SystemError Bytes) := do
  try
    return .ok (← IO.FS.readBinFile name).data.toList
  catch e =>
    return .error (refusal (.ofText name) e)

/-- Writes bytes to a stream. -/
def put (stream : IO.FS.Stream) (b : Bytes) : IO Unit := do
  stream.write ⟨b.toArray⟩
  stream.flush

end SegY.CommandLine

open SegY SegY.CommandLine in
/-- Prints a summary of the file that the arguments name. -/
def main (arguments : List String) : IO UInt32 := do
  let outcome ← match Request.ofArguments (arguments.map Bytes.ofText) with
    | .ok (r, name) =>
      let file := (String.fromUTF8? ⟨name.toArray⟩).getD ""
      pure (r.run name (← readFile file))
    | .error outcome => pure outcome
  put (← IO.getStdout) outcome.stdout
  put (← IO.getStderr) outcome.stderr
  return outcome.status.toUInt32
