import TidyMark.CommandLine.Settings

/-!
# Reading arguments

The words of a command line are read from left to right. A word that needs no look at the next one
is entered at once. An option whose value is a word of its own, and the input, stay pending until
something else is entered or the words end, so that an unknown word is noticed before a bad value
in front of it. After a word of two dashes every word is an input.
-/

namespace TidyMark.CommandLine

/-- What has been entered. -/
structure Given where
  input : Option Text := none
  /-- The options with their values, in order. -/
  values : List (Key × Text) := []
  flags : List Flag := []

namespace Given

def value? (g : Given) (k : Key) : Option Text :=
  (g.values.find? (·.1 == k)).map (·.2)

def valuesOf (g : Given) (k : Key) : List Text :=
  (g.values.filter (·.1 == k)).map (·.2)

def addInput (g : Given) (path : Text) : Except UsageError Given :=
  if path.isEmpty then .error (.missingValue "INPUT") else .ok { g with input := some path }

def addValue (g : Given) (k : Key) (value : Text) : Except UsageError Given :=
  if !k.repeats && (g.value? k).isSome then .error (.repeated k.word)
  else if k.accepts value then .ok { g with values := g.values ++ [(k, value)] }
  else .error (.badValue k.word value)

def addFlag (g : Given) (f : Flag) : Except UsageError Given :=
  if g.flags.contains f then .error (.repeated f.word) else .ok { g with flags := f :: g.flags }

/-- The settings that a command line stands for when all of it has been entered. -/
def settings (g : Given) : Except UsageError Settings :=
  if (g.value? .newline).isSome && g.flags.contains .noNewline then .error .newlineConflict
  else .ok {
    input := g.input.getD "-"
    output := g.value? .output
    noCondense := g.flags.contains .noCondense
    newline := g.value? .newline
    noNewline := g.flags.contains .noNewline
    reflinks := g.valuesOf .reflink
    username := g.value? .username
    name := g.value? .name
    xhtml := g.flags.contains .xhtml
    langPrefix := (g.value? .langPrefix).getD "language-"
    strict := g.flags.contains .strict
    format := ((g.value? .format).bind Format.ofName?).getD .markdown
    links := g.flags.contains .links
    logLevel := (g.value? .logLevel).getD "warn" }

end Given

/-- What has been read but not been entered. -/
inductive Pending where
  | nothing
  | input (path : Text)
  /-- An option, with its value if that has been read. -/
  | option (k : Key) (value : Option Text)

/-- How far a command line has been read. -/
structure Reading where
  given : Given := {}
  pending : Pending := .nothing
  /-- Whether the dashes that words begin with mean nothing any more. -/
  inputsOnly : Bool := false

namespace Reading

/-- Enters what is pending. -/
def settle (r : Reading) : Except UsageError Given :=
  match r.pending with
  | .nothing => .ok r.given
  | .input path => r.given.addInput path
  | .option k none => .error (.missingValue k.word)
  | .option k (some value) => r.given.addValue k value

/-- Enters what is pending and then something else. -/
def enter (r : Reading) (f : Given → Except UsageError Given) : Except UsageError Reading := do
  return { r with given := ← f (← r.settle), pending := .nothing }

/-- Enters what is pending and leaves something else so. -/
def suspend (r : Reading) (p : Pending) : Except UsageError Reading := do
  return { r with given := ← r.settle, pending := p }

def hasInput (r : Reading) : Bool :=
  match r.pending with
  | .input _ => true
  | _ => r.given.input.isSome

def readInput (r : Reading) (word : Text) : Except UsageError Reading :=
  if r.hasInput then .error (.unknownArgument word) else r.suspend (.input word)

/-- Fulfils a request, which may have a value in the same word. -/
def fulfil (r : Reading) (name : Text) (value : Option Text) : Request → Except Stop Reading
  | .option k =>
    (match value with
      | some value => r.enter (·.addValue k value)
      | none => r.suspend (.option k none)).mapError .misuse
  | .flag f => withoutValue ((r.enter (·.addFlag f)).mapError .misuse)
  | .help => withoutValue (stop .help)
  | .version => withoutValue (stop .version)
where
  stop (s : Stop) : Except Stop Reading := do
    discard (r.settle.mapError .misuse)
    .error s
  withoutValue (next : Except Stop Reading) : Except Stop Reading :=
    match value with
    | some value => .error (.misuse (.unneededValue name value))
    | none => next

/-- Reads what stands after two dashes: a name, and perhaps a value after an equals sign. -/
def readLong (r : Reading) (t : Text) : Except Stop Reading :=
  let name := t.takeWhile (· != '=')
  match Request.ofWord? name with
  | some request => r.fulfil name (t.dropWhile (· != '=')).tail? request
  | none => .error (.misuse (.unknownArgument ("--" ++ t)))

/-- Reads what stands after one dash: a letter, and perhaps a value, before which an equals sign
may stand. -/
def readShort (r : Reading) (c : Char) (rest : Text) : Except Stop Reading :=
  match Request.ofLetter? c with
  | some (.option k) =>
    let value :=
      match rest with
      | [] => none
      | '=' :: value => some value
      | value => some value
    r.fulfil [c] value (.option k)
  | some request => r.fulfil [c] none request
  | none => .error (.misuse (.unknownArgument ['-', c]))

/-- Reads a word without dashes: the value that an option waits for, or the input. -/
def readPlain (r : Reading) (word : Text) : Except UsageError Reading :=
  match r.pending with
  | .option k none => .ok { r with pending := .option k (some word) }
  | _ => r.readInput word

def readWord (r : Reading) (word : Text) : Except Stop Reading :=
  if r.inputsOnly then (r.readInput word).mapError .misuse
  else
    match word with
    | ['-', '-'] => .ok { r with inputsOnly := true }
    | '-' :: '-' :: rest => r.readLong rest
    | '-' :: c :: rest => r.readShort c rest
    | word => (r.readPlain word).mapError .misuse

end Reading

def Settings.ofArguments (args : List Text) : Except Stop Settings := do
  let r ← args.foldlM Reading.readWord {}
  let given ← r.settle.mapError .misuse
  given.settings.mapError .misuse

end TidyMark.CommandLine
