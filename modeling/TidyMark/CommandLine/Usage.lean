import TidyMark.Text.Basic

/-!
# What can be said on the command line

The names of the flags and of the options, which take a value, and why a command line may be no
request to render anything.
-/

namespace TidyMark.CommandLine

inductive Format where
  | markdown
  | html
  /-- The source with its references expanded, nothing else changed. -/
  | expand
deriving DecidableEq

namespace Format

def name : Format → Text
  | .markdown => "markdown"
  | .html => "html"
  | .expand => "expand"

def ofName? (t : Text) : Option Format :=
  [markdown, html, expand].find? (·.name == t)

theorem ofName?_name (f : Format) : ofName? f.name = some f := by
  cases f <;> rfl

end Format

/-- An option. Each has a value. -/
inductive Key where
  | output
  | newline
  | reflink
  | username
  | name
  | langPrefix
  | format
  | logLevel
deriving DecidableEq

namespace Key

def all : List Key :=
  [output, newline, reflink, username, name, langPrefix, format, logLevel]

/-- How the option is written, without its dashes. -/
def word : Key → Text
  | .output => "output"
  | .newline => "newline"
  | .reflink => "reflink"
  | .username => "username"
  | .name => "name"
  | .langPrefix => "lang-prefix"
  | .format => "format"
  | .logLevel => "log-level"

def repeats (k : Key) : Bool :=
  k == .reflink

/-- Whether the option can have a value: an output has a name, and a format is one of those that
there are. -/
def accepts (k : Key) (value : Text) : Bool :=
  match k with
  | .output => !value.isEmpty
  | .format => (Format.ofName? value).isSome
  | _ => true

end Key

inductive Flag where
  | noCondense
  | noNewline
  | xhtml
  | strict
  | links
deriving DecidableEq

namespace Flag

def all : List Flag :=
  [noCondense, noNewline, xhtml, strict, links]

/-- How the flag is written, without its dashes. -/
def word : Flag → Text
  | .noCondense => "no-condense"
  | .noNewline => "no-newline"
  | .xhtml => "xhtml"
  | .strict => "strict"
  | .links => "links"

end Flag

/-- What a word with dashes before it asks for. -/
inductive Request where
  | option (k : Key)
  | flag (f : Flag)
  | help
  | version
deriving DecidableEq

/-- What a word after two dashes asks for. -/
def Request.ofWord? (t : Text) : Option Request :=
  if t == "help".toList then some .help
  else if t == "version".toList then some .version
  else
    match Key.all.find? (·.word == t) with
    | some k => some (.option k)
    | none => (Flag.all.find? (·.word == t)).map .flag

/-- What a letter after one dash asks for. -/
def Request.ofLetter? (c : Char) : Option Request :=
  if c == 'o' then some (.option .output)
  else if c == 'h' then some .help
  else if c == 'V' then some .version
  else none

theorem Request.ofWord?_key (k : Key) : ofWord? k.word = some (.option k) := by
  cases k <;> rfl

theorem Request.ofWord?_flag (f : Flag) : ofWord? f.word = some (.flag f) := by
  cases f <;> rfl

inductive UsageError where
  | unknownArgument (word : Text)
  | missingValue (name : Text)
  | badValue (name value : Text)
  /-- A flag was given a value. -/
  | unneededValue (name value : Text)
  | repeated (name : Text)
  /-- A newline was given and forbidden. -/
  | newlineConflict
deriving DecidableEq

/-- Why nothing is rendered. -/
inductive Stop where
  | help
  | version
  | misuse (e : UsageError)
deriving DecidableEq

end TidyMark.CommandLine
