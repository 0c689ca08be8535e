import TidyMark.CommandLine.Files
import TidyMark.CommandLine.Settings
import TidyMark.Failure

/-!
# Failing runs

Why a run fails and what it reports then: what it was to do and, on lines of its own, what kept it
from that.
-/

namespace TidyMark.CommandLine

inductive RunError where
  | configuration (e : SettingsError)
  | renderOptions (e : SettingsError)
  | readStdin (e : SystemError)
  | readFile (path : Text) (e : SystemError)
  | notUtf8 (fault : Utf8.Fault)
  | render (format : Format) (failure : Failure)
  | createDirectory (path : Text) (e : SystemError)
  | writeFile (path : Text) (e : SystemError)

namespace RunError

def action : RunError → Text
  | .configuration _ => "Invalid configuration"
  | .renderOptions _ => "Invalid render options"
  | .readStdin _ => "Failed to read stdin"
  | .readFile path _ => "Failed to read " ++ path
  | .notUtf8 fault => (Failure.notUtf8 fault).message
  | .render .markdown _ => "Failed to render markdown"
  | .render .html _ => "Failed to render HTML"
  | .render .expand _ => "Failed to expand reflinks"
  | .createDirectory path _ => "Failed to create output directory " ++ path
  | .writeFile path _ => "Failed to write " ++ path

/-- Why it fails to, where `action` does not say so. -/
def cause? : RunError → Option Text
  | .configuration e | .renderOptions e => some e.message
  | .readStdin e | .readFile _ e | .createDirectory _ e | .writeFile _ e => some e.message
  | .notUtf8 _ => none
  | .render _ failure => some failure.message

/-- The report of an error; every line of the cause is indented. -/
def report (e : RunError) : Text :=
  let cause : Text :=
    match e.cause? with
    | some t => "\n\nCaused by:\n    " ++ Text.replaceChar '\n' "\n    " t
    | none => []
  "Error: " ++ e.action ++ cause ++ "\n"

end RunError

end TidyMark.CommandLine
