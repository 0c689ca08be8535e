import TidyMark.CommandLine.Usage

/-!
# What the program says about itself
-/

namespace TidyMark.CommandLine

def programName : Text :=
  "prettymd"

def versionText : Text :=
  programName ++ " 0.1.0\n"

def Key.purpose : Key → Text
  | .output => "Output file, stdout when omitted"
  | .newline => "Trailing terminator appended after trimming"
  | .reflink => "Reflink target for labels the document does not define"
  | .username => "Author username, marks byline bullets linking to the profile"
  | .name => "Author display name, marks byline bullets following it"
  | .langPrefix => "Class prefix for fenced code languages in HTML output [default: language-]"
  | .format => "Output format [default: markdown] [possible values: markdown, html, expand]"
  | .logLevel => "Log filter (error, warn, info, debug, trace) [default: warn]"

/-- What stands for the value of an option. -/
def Key.valueName : Key → Text
  | .output => "OUTPUT"
  | .newline => "NEWLINE"
  | .reflink => "LABEL=URL"
  | .username => "USERNAME"
  | .name => "NAME"
  | .langPrefix => "LANG_PREFIX"
  | .format => "FORMAT"
  | .logLevel => "LOG_LEVEL"

def Flag.purpose : Flag → Text
  | .noCondense => "Keep runs of blank lines instead of condensing them"
  | .noNewline => "Append no trailing terminator"
  | .xhtml => "Self closing tags in generated HTML"
  | .strict => "Fail on unknown tokens and malformed reflinks"
  | .links => "Print collected links, images and badges to stderr"

/-- A line of help: what can be said, padded to a column, and what it is for. -/
def helpLine (letter : Option Char) (said purpose : Text) : Text :=
  let dash : Text :=
    match letter with
    | some c => ['-', c, ',', ' ']
    | none => List.replicate 4 ' '
  let head := "  " ++ dash ++ "--" ++ said
  head ++ List.replicate (35 - head.length) ' ' ++ purpose ++ "\n"

def usageText : Text :=
  "Usage: " ++ programName ++ " [OPTIONS] [INPUT]\n"

def helpText : Text :=
  let options := Key.all.flatMap fun k =>
    helpLine (if k == .output then some 'o' else none) (k.word ++ " <" ++ k.valueName ++ ">")
      k.purpose
  let flags := Flag.all.flatMap fun f => helpLine none f.word f.purpose
  "Prettify markdown: canonical reformatting with reference link expansion\n\n" ++ usageText ++
    "\nArguments:\n  [INPUT]  Input markdown file, or - for stdin [default: -]\n\nOptions:\n" ++
    options ++ flags ++ helpLine (some 'h') "help" "Print help" ++
    helpLine (some 'V') "version" "Print version"

def UsageError.message : UsageError → Text
  | .unknownArgument word => "unexpected argument '" ++ word ++ "' found"
  | .missingValue name => "a value is required for '" ++ name ++ "' but none was supplied"
  | .badValue name value => "invalid value '" ++ value ++ "' for '" ++ name ++ "'"
  | .unneededValue name value => "unexpected value '" ++ value ++ "' for '" ++ name ++ "' found"
  | .repeated name => "the argument '" ++ name ++ "' cannot be used multiple times"
  | .newlineConflict =>
    "the argument '" ++ Key.newline.word ++ "' cannot be used with '" ++ Flag.noNewline.word ++ "'"

def UsageError.report (e : UsageError) : Text :=
  "error: " ++ e.message ++ "\n\n" ++ usageText ++ "\nFor more information, try '--help'.\n"

end TidyMark.CommandLine
