import TidyMark.Render.Walk
import TidyMark.Text.Condense

/-!
# Rendering

`render` writes a stream of tokens as a document and reports the links, images and badges in it.
-/

namespace TidyMark

structure Rendered where
  text : Text
  report : Report
deriving DecidableEq

/-- A rendering, with the tokens as it has left them. -/
structure Rendering where
  result : Except Failure Rendered
  tokens : List Token

namespace Render

/-- The last touch on a rendered document: no long runs of blank lines, no white space at its
ends, and the newline that is asked for. -/
def polish (options : Options) (out : Text) : Text :=
  Text.trim (if options.condense then Text.condense out else out) ++ options.newline.text

/-- What a walk comes to when everything that it wrote is laid out. -/
def conclude (options : Options) (w : Walk) : Except Failure Rendered :=
  match draw? w.pieces with
  | none => .error .splitCharacter
  | some canvas =>
    match w.stopped with
    | some name => .error (.unknownKind name)
    | none =>
      match canvas.finish? with
      | none => .error .splitCharacter
      | some out => .ok ⟨polish options out, w.state.report⟩

end Render

def render (options : Options) (tokens : List Token) : Rendering :=
  let w := Render.walkAll (.ofOptions options) tokens
  ⟨Render.conclude options w, w.tokens⟩

end TidyMark
