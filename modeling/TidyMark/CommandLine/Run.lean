import TidyMark.CommandLine.Arguments
import TidyMark.CommandLine.Help
import TidyMark.CommandLine.Remarks
import TidyMark.CommandLine.RunError
import TidyMark.Tidy

/-!
# Runs

A run reads its input, renders it and writes the result, to a file or to the standard output. It
is all or nothing: whatever can fail before the result is written fails without a trace, and a
result that cannot be written is not printed either. `run` works in any monad with a `Host`, which
reads and writes for it.
-/

namespace TidyMark.CommandLine

/-- What reads and writes for a run. Paths are as the user wrote them. -/
class Host (m : Type → Type) where
  pathExists : Text → m Bool
  readStdin : m (Except SystemError (List UInt8))
  readFile : Text → m (Except SystemError (List UInt8))
  createDirectories : Text → m (Except SystemError Unit)
  writeFile : Text → Text → m (Except SystemError Unit)

/-- How a run ends. -/
structure Ending where
  code : Nat
  stdout : Text := []
  stderr : Text := []
deriving DecidableEq

/-- The ending of a run that renders nothing. -/
def Stop.ending : Stop → Ending
  | .help => { code := 0, stdout := helpText }
  | .version => { code := 0, stdout := versionText }
  | .misuse e => { code := 2, stderr := e.report }

/-- What a run has to say: a result, and remarks beside it. -/
structure Product where
  result : Text
  remarks : Text := []

def Settings.render (s : Settings) (options : Options) (source : Text) :
    Except Failure Product :=
  match s.format with
  | .markdown => do
    let rendered ← tidy options source
    return ⟨rendered.text, if s.links then rendered.report.remarks else []⟩
  | .html => return ⟨← toHtml options source, []⟩
  | .expand => return ⟨← Reflink.expand options source, []⟩

/-- What the bytes of the input come to. -/
def Settings.produce (s : Settings) (options : Options) (bytes : List UInt8) :
    Except RunError Product := do
  let source ← (Utf8.decode bytes).mapError .notUtf8
  (s.render options source).mapError (.render s.format)

section Program

variable {m : Type → Type} [Monad m] [Host m]

def Settings.readInput (s : Settings) : m (Except RunError (List UInt8)) := do
  if s.readsStdin then return (← Host.readStdin).mapError .readStdin
  else return (← Host.readFile s.input).mapError (.readFile s.input)

/-- Writes a result to a file, in a directory that is made if there is none. -/
def save (path : Text) (result : Text) : m (Except RunError Unit) := do
  let made ←
    match Path.directory? path with
    | some d => do pure ((← Host.createDirectories d).mapError (.createDirectory d))
    | none => pure (.ok ())
  match made with
  | .error e => return .error e
  | .ok () => return (← Host.writeFile path result).mapError (.writeFile path)

/-- Ends a run with what it has to say. -/
def Settings.deliver (s : Settings) (p : Product) : m Ending :=
  match s.output with
  | none => return ⟨0, p.result, p.remarks⟩
  | some path => do
    match ← save path p.result with
    | .ok () => return ⟨0, [], p.remarks⟩
    | .error e => return ⟨1, [], p.remarks ++ e.report⟩

/-- The options and the input of a run, unless something is wrong with them. -/
def Settings.prepare (s : Settings) : m (Except RunError (Options × List UInt8)) := do
  let found ← if s.readsStdin then pure true else Host.pathExists s.input
  match s.check found with
  | .error e => return .error (.configuration e)
  | .ok () =>
    match s.options with
    | .error e => return .error (.renderOptions e)
    | .ok options => return (← s.readInput).map (options, ·)

def Settings.run (s : Settings) : m Ending := do
  match ← s.prepare with
  | .error e => return ⟨1, [], e.report⟩
  | .ok (options, bytes) =>
    match s.produce options bytes with
    | .error e => return ⟨1, [], e.report⟩
    | .ok p => s.deliver p

def run (args : List Text) : m Ending :=
  match Settings.ofArguments args with
  | .error stop => return stop.ending
  | .ok settings => settings.run

end Program

end TidyMark.CommandLine
