import TidyMark.CommandLine.Path
import TidyMark.Text.Utf8

/-!
# Files

The files around a run, as a value: each stands at a place, the names that lead to it from the
working directory. A place that leads to another one is a directory. Reading and writing fail as
they do on a disk, and a failure changes nothing.
-/

namespace TidyMark.CommandLine

/-- Why the system does not do what it is asked. -/
inductive SystemError where
  | missing
  | alreadyExists
  | notDirectory
  | isDirectory
  | other (message : Text)
deriving DecidableEq

def SystemError.message : SystemError → Text
  | .missing => "No such file or directory (os error 2)"
  | .alreadyExists => "File exists (os error 17)"
  | .notDirectory => "Not a directory (os error 20)"
  | .isDirectory => "Is a directory (os error 21)"
  | .other t => t

/-- The names that lead to a file or directory from the working directory. -/
abbrev Place := List Text

namespace Place

def root : Place :=
  [['/']]

/-- Takes a step of a path. There is nothing above the working directory. -/
def step (place : Place) (name : Text) : Place :=
  if name == ['.'] then place
  else if name == ['.', '.'] then (if place == root then place else place.dropLast)
  else place ++ [name]

/-- Where a path begins. -/
def start (path : Path) : Place :=
  if path.rooted then root else []

end Place

inductive Node where
  | file (content : List UInt8)
  | directory

/-- Files with their contents, and directories that may be empty. -/
structure Files where
  contents : List (Place × List UInt8) := []
  directories : List Place := []

namespace Files

def isDirectory (fs : Files) (place : Place) : Bool :=
  place.isEmpty || place == Place.root || fs.directories.contains place ||
    fs.contents.any fun (p, _) => place.length < p.length && p.take place.length == place

def node? (fs : Files) (place : Place) : Option Node :=
  match fs.contents.lookup place with
  | some content => some (.file content)
  | none => if fs.isDirectory place then some .directory else none

/-- The place that steps lead to; all but the last have to lead to directories. -/
def walk (fs : Files) (place : Place) : List Text → Except SystemError Place
  | [] => .ok place
  | name :: rest =>
    let next := place.step name
    if rest.isEmpty then .ok next
    else
      match fs.node? next with
      | some .directory => walk fs next rest
      | some (.file _) => .error .notDirectory
      | none => .error .missing

def locate (fs : Files) (path : Path) : Except SystemError Place :=
  fs.walk (Place.start path) path.steps

/-- What stands where a path leads to. -/
def stat (fs : Files) (t : Text) : Except SystemError Node := do
  let path := Path.ofText t
  match fs.node? (← fs.locate path) with
  | some (.file content) => if path.slash then .error .notDirectory else .ok (.file content)
  | some .directory => .ok .directory
  | none => .error .missing

def read (fs : Files) (t : Text) : Except SystemError (List UInt8) := do
  match ← fs.stat t with
  | .file content => .ok content
  | .directory => .error .isDirectory

/-- Puts a file at a place, instead of one that stands there. -/
def put (fs : Files) (place : Place) (content : List UInt8) : Files :=
  { fs with contents := fs.contents.filter (·.1 != place) ++ [(place, content)] }

def write (fs : Files) (t : Text) (content : List UInt8) : Except SystemError Files := do
  let path := Path.ofText t
  let place ← fs.locate path
  match fs.node? place with
  | some .directory => .error .isDirectory
  | some (.file _) => if path.slash then .error .notDirectory else .ok (fs.put place content)
  | none => if path.slash then .error .isDirectory else .ok (fs.put place content)

/-- Makes the directories that steps lead to, where there are none. -/
def createAlong (fs : Files) (place : Place) : List Text → Except SystemError Files
  | [] => .ok fs
  | name :: rest =>
    let next := place.step name
    match fs.node? next with
    | some .directory => createAlong fs next rest
    | some (.file _) => .error (if rest.isEmpty then .alreadyExists else .notDirectory)
    | none => createAlong { fs with directories := next :: fs.directories } next rest

/-- Makes a directory with all directories on the way to it. -/
def createDirectories (fs : Files) (t : Text) : Except SystemError Files :=
  let path := Path.ofText t
  fs.createAlong (Place.start path) path.steps

/-- Making directories leaves the files as they are. -/
theorem contents_createAlong {fs fs' : Files} {place : Place} :
    ∀ {steps : List Text}, fs.createAlong place steps = .ok fs' → fs'.contents = fs.contents := by
  intro steps
  induction steps generalizing fs place with
  | nil =>
    intro h
    simp only [createAlong, Except.ok.injEq] at h
    rw [← h]
  | cons name rest ih =>
    intro h
    simp only [createAlong] at h
    split at h
    · exact ih h
    · simp at h
    · have := ih h
      exact this

end Files

end TidyMark.CommandLine
