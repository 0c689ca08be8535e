import TidyMark.CommandLine.Run

/-!
# A world to run in

The host that is a value: a standard input and the files that are there. A run in it is a function.
-/

namespace TidyMark.CommandLine

/-- A standard input and the files around a run. -/
structure World where
  stdin : List UInt8 := []
  files : Files := {}

def World.change (f : Files → Except SystemError Files) :
    StateM World (Except SystemError Unit) := fun w =>
  match f w.files with
  | .ok files => (.ok (), { w with files })
  | .error e => (.error e, w)

instance : Host (StateM World) where
  pathExists path := do return ((← get).files.stat path).isOk
  readStdin := do return .ok (← get).stdin
  readFile path := do return (← get).files.read path
  createDirectories path := World.change (·.createDirectories path)
  writeFile path text := World.change (·.write path (text.flatMap String.utf8EncodeChar))

end TidyMark.CommandLine
