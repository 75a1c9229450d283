import KlvMetadata.CommandLine

/-!
# Main Program

Reads the files that the arguments name, and prints what the run gives.
-/

namespace KlvMetadata

namespace CommandLine

/-- Contents of a file of the system, or why there are none. -/
def readFile (path : String) : IO (Except Error Bytes) := do
  try
    return .ok (← IO.FS.readBinFile path).toList
  catch e =>
    match e with
    | .noFileOrDirectory .. => return .error .missingFile
    | e => return .error (.file (toString e))

end CommandLine

end KlvMetadata

open KlvMetadata CommandLine

/-- Run the program. Arguments are the only names of files that a run asks
    for, so reading those first is enough. -/
def main (arguments : List String) : IO UInt32 := do
  let contents ← arguments.mapM fun path => return (path, ← readFile path)
  let files : Files := fun path => (contents.lookup path).getD (.error .missingFile)
  let outcome := run files arguments
  for line in outcome.output do IO.println line
  for line in outcome.messages do IO.eprintln line
  return outcome.code.toUInt32
