import DigitiserSums.Program

/-!
# Running the program

Gathers what the program may look at, runs it, and writes what it gives.
-/

namespace DigitiserSums.Program

/-- Reads a stream to its end, behind the bytes read already. -/
partial def readToEnd (stream : IO.FS.Stream) (bytes : ByteArray) : IO ByteArray := do
  let more ← stream.read 65536
  if more.isEmpty then return bytes else readToEnd stream (bytes ++ more)

def readFile (name : String) : IO (Except FileFault (List UInt8)) := do
  try
    return .ok (← IO.FS.readBinFile name).data.toList
  catch
    | .noFileOrDirectory .. => return .error .notFound
    | .inappropriateType _ code _ =>
      return .error (if code = 20 then .notDirectory else .isDirectory)
    | error => return .error (.other (toString error))

def fileNames (line : CommandLine) : List String :=
  line.input.toList ++ match line.mode with
    | .aggregate _ => []
    | .fromFile name => [name]

/-- The log is not written here and metrics are not served, so that no filter is refused and no
address is in use. -/
def libraries : Libraries where
  isLogFilter _ := true
  serve _ := .ok ()
  badName := .mistyped

/-- Runs the program on the words behind its name. -/
def execute (words : List String) : IO UInt32 := do
  let settings ← [CommandLine.logFilterVariable, CommandLine.addressVariable].mapM fun name => do
    return (name, ← IO.getEnv name)
  let environment (name : String) : Option String := (settings.lookup name).join
  let line := CommandLine.parse environment words
  let names := line.toOption.elim [] fileNames
  let contents ← names.mapM fun name => do
    return (name, ← readFile name)
  let files : Files := fun name => (contents.lookup name).getD (.error .notFound)
  let isNeeded := line.toOption.any fun line => line.input.isNone
  let standardInput ← if isNeeded then readToEnd (← IO.getStdin) .empty else pure .empty
  let outcome := run libraries environment files standardInput.data.toList words
  (← IO.getStdout).putStr outcome.output
  (← IO.getStdout).flush
  if let some failure := outcome.failure then
    IO.eprintln failure.message
  return outcome.exitCode

end DigitiserSums.Program

def main (words : List String) : IO UInt32 :=
  DigitiserSums.Program.execute words
