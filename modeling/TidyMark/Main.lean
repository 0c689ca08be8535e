import TidyMark.CommandLine.Run

/-!
# The program
-/

namespace TidyMark.CommandLine

def SystemError.ofHost : IO.Error → SystemError
  | .noFileOrDirectory _ _ _ => .missing
  | .alreadyExists _ _ _ => .alreadyExists
  | .inappropriateType _ 20 _ => .notDirectory
  | .inappropriateType _ 21 _ => .isDirectory
  | e => .other (toString e)

/-- Does something that may fail. -/
def attempt {α : Type} (act : IO α) : IO (Except SystemError α) := do
  match ← act.toBaseIO with
  | .ok a => return .ok a
  | .error e => return .error (.ofHost e)

/-- Reads to the end of a stream. -/
partial def readAll (stream : IO.FS.Stream) (got : ByteArray) : IO ByteArray := do
  let more ← stream.read 65536
  if more.isEmpty then return got else readAll stream (got ++ more)

instance : Host IO where
  pathExists path := do return (← attempt (IO.FS.realPath (String.ofList path))).isOk
  readStdin := attempt do return (← readAll (← IO.getStdin) .empty).toList
  readFile path := attempt do return (← IO.FS.readBinFile (String.ofList path)).toList
  createDirectories path := attempt (IO.FS.createDirAll (String.ofList path))
  writeFile path text := attempt (IO.FS.writeFile (String.ofList path) (String.ofList text))

end TidyMark.CommandLine

open TidyMark in
def main (args : List String) : IO UInt32 := do
  let ending : CommandLine.Ending ← CommandLine.run (args.map String.toList)
  IO.print (String.ofList ending.stdout)
  IO.eprint (String.ofList ending.stderr)
  return ending.code.toUInt32
