import TidyMark.CommandLine.Usage
import TidyMark.Options
import TidyMark.Text.Blank

/-!
# Settings

What a command line says, with defaults for what it leaves open, and the options of rendering that
follow from it. `check` and `options` refuse the same targets.
-/

namespace TidyMark.CommandLine

structure Settings where
  /-- The file to read; a dash is the standard input. -/
  input : Text := "-"
  /-- The file to write; the standard output if there is none. -/
  output : Option Text := none
  noCondense : Bool := false
  newline : Option Text := none
  noNewline : Bool := false
  /-- Targets for labels that the document does not define, as they were written. -/
  reflinks : List Text := []
  username : Option Text := none
  name : Option Text := none
  xhtml : Bool := false
  langPrefix : Text := "language-"
  strict : Bool := false
  format : Format := .markdown
  /-- Report links, images and badges. -/
  links : Bool := false
  logLevel : Text := "warn"

inductive SettingsError where
  | missingInput (path : Text)
  | malformedReflink (value : Text)
deriving DecidableEq

def SettingsError.message : SettingsError → Text
  | .missingInput path => "Input file does not exist: " ++ path
  | .malformedReflink value => "Reflink must be written as LABEL=URL: " ++ value

/-- A label and its target, written with an equals sign between them; neither is blank. -/
def reflink? (value : Text) : Option (Text × Text) :=
  match value.dropWhile (· != '=') with
  | [] => none
  | _ :: url =>
    let label := Text.trim (value.takeWhile (· != '='))
    let url := Text.trim url
    if label.isEmpty || url.isEmpty then none else some (label, url)

/-- A label and its target, or that they are none. -/
def readReflink (value : Text) : Except SettingsError (Text × Text) :=
  match reflink? value with
  | some r => .ok r
  | none => .error (.malformedReflink value)

/-- Puts line feeds, carriage returns and tabs in the place of their names. -/
def unescape : Text → Text
  | '\\' :: 'n' :: rest => '\n' :: unescape rest
  | '\\' :: 'r' :: rest => '\r' :: unescape rest
  | '\\' :: 't' :: rest => '\t' :: unescape rest
  | c :: rest => c :: unescape rest
  | [] => []

namespace Settings

def readsStdin (s : Settings) : Bool :=
  s.input == ['-']

/-- Checks settings; `found` tells whether there is such a file as the input. -/
def check (s : Settings) (found : Bool) : Except SettingsError Unit :=
  if !s.readsStdin && !found then .error (.missingInput s.input)
  else s.reflinks.forM fun value => do discard (readReflink value)

/-- What the rendered text is to end with. -/
def ending (s : Settings) : Newline :=
  if s.noNewline then .nothing
  else
    match s.newline with
    | some t => .literal (unescape t)
    | none => .lineFeed

def baseOptions (s : Settings) : Options :=
  { ({} : Options).withAuthor s.username s.name with
    condense := !s.noCondense
    newline := s.ending
    strict := s.strict
    xhtml := s.xhtml
    langPrefix := s.langPrefix }

def options (s : Settings) : Except SettingsError Options :=
  s.reflinks.foldlM (fun options value => do
    let (label, url) ← readReflink value
    return options.withReflink label url) s.baseOptions

end Settings

end TidyMark.CommandLine
