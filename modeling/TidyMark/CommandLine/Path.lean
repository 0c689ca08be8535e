import TidyMark.Text.Line

/-!
# Paths

A path is a text as the user wrote it. Its steps are the names between slashes; a dot is a step that
stays and two dots are a step up.
-/

namespace TidyMark.CommandLine

/-- A path taken apart. -/
structure Path where
  /-- Whether the path begins at the root of all files. -/
  rooted : Bool
  steps : List Text
  /-- Whether a slash ends the path, so that only a directory can stand there. -/
  slash : Bool

namespace Path

def ofText (t : Text) : Path :=
  { rooted := t.head? == some '/'
    steps := (Text.split '/' t).filter (!·.isEmpty)
    slash := t.getLast? == some '/' }

/-- Drops what does not count at the end of reversed stretches between slashes: empty stretches,
and dots unless one begins a relative path. -/
def dropIdle (rooted : Bool) : List Text → List Text
  | [] => []
  | part :: rest =>
    if part.isEmpty || (part == ['.'] && (rooted || !rest.isEmpty)) then dropIdle rooted rest
    else part :: rest

/-- The path without its last step, as it was written; the root and the empty path have none. -/
def parent? (t : Text) : Option Text :=
  let rooted := t.head? == some '/'
  let root : Text := if rooted then ['/'] else []
  match dropIdle rooted (Text.split '/' (t.drop root.length)).reverse with
  | [] => none
  | _ :: rest => some (root ++ Text.join ['/'] (dropIdle rooted rest).reverse)

/-- The directory that the path names one in, if it names one. -/
def directory? (t : Text) : Option Text :=
  (parent? t).filter (!·.isEmpty)

end Path

end TidyMark.CommandLine
