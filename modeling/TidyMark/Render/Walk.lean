import TidyMark.Render.Layout
import TidyMark.Render.Rule

/-!
# The walk over the tokens

The walk goes through a sequence of tokens from left to right and through the children of `inline`
tokens in their place. Each token is first settled, that is, links and images get their final
address and texts lose the fragment that went into one, and then written by its rule. In strict
mode the walk stops at a token of an unknown kind.
-/

namespace TidyMark.Render

/-- The role of what a token writes. -/
def Role.ofKind : Kind → Role
  | .opening .blockquote => .opensQuote
  | .closing .blockquote => .closesQuote
  | .opening .listItem => .opensItem
  | .closing .listItem => .closesItem
  | _ => .plain

/-- A token as its rule takes it. `takesFragment` tells whether the token directly before it takes
a fragment off it. -/
def settle (takesFragment : Bool) (t : Token) (after : List Token) : Token :=
  match t.kind with
  | .opening .link => settleLink t after
  | .leaf .image => settleImage t after
  | _ => if takesFragment then withoutFragment t else t

def linksAfter (openLinks : Nat) (k : Kind) : Nat :=
  match k with
  | .opening .link => openLinks + 1
  | .closing .link => openLinks - 1
  | _ => openLinks

/-- Whether a token takes a fragment off the text after it. -/
def takesFragment (openLinks : Nat) (k : Kind) : Bool :=
  match k with
  | .leaf .image => true
  | .closing .link => 0 < openLinks
  | _ => false

/-- The tokens that the walk did not come to. The links that are open take their fragments off
the texts after them all the same; `inner` links have opened since. -/
def abandon (openLinks inner : Nat) (takes : Bool) : List Token → List Token
  | [] => []
  | t :: rest =>
    let t := if takes then withoutFragment t else t
    match t.kind with
    | .opening .link => t :: abandon openLinks (inner + 1) false rest
    | .closing .link =>
      if 0 < inner then t :: abandon openLinks (inner - 1) false rest
      else t :: abandon (openLinks - 1) 0 (0 < openLinks) rest
    | _ => t :: abandon openLinks inner false rest

/-- What has become of one token. -/
structure Step where
  state : State
  token : Token
  written : Text
  /-- The unknown kind at which the walk stopped. -/
  stopped : Option Text := none

/-- What has become of a sequence of tokens. -/
structure Walk where
  state : State
  tokens : List Token
  pieces : List Piece
  /-- The unknown kind at which the walk stopped. -/
  stopped : Option Text

/-- What the pieces of a walk write, one after the other. -/
def Walk.written (w : Walk) : Text :=
  w.pieces.flatMap (·.text)

/-- Writes a token that is not an `inline` token. -/
def stepLeaf (setting : Setting) (state : State) (s : Sight) : Step :=
  match s.token.kind, setting.options.strict with
  | .unknown name, true => ⟨state, s.token, [], some name⟩
  | _, _ =>
    let (state, written) := rule setting state s
    ⟨state, s.token, written, none⟩

mutual

/-- Settles and writes one token. -/
def step (setting : Setting) (state : State) (before after : List Token) (openLinks : Nat)
    (takes : Bool) : Token → Step
  | t@⟨kind, _, children, _, _, _, _, _, _, _, _, _, _, _, _⟩ =>
    if kind == .leaf .inline then
      let inner := walk setting state [] 0 false children
      ⟨inner.state, { t with children := inner.tokens }, inner.written, inner.stopped⟩
    else stepLeaf setting state ⟨before, settle takes t after, after, openLinks⟩

/-- Settles and writes the tokens that follow `before`, where `openLinks` links are open and the
token directly before takes a fragment off the next one or not. -/
def walk (setting : Setting) (state : State) (before : List Token) (openLinks : Nat)
    (takes : Bool) : List Token → Walk
  | [] => ⟨state, [], [], none⟩
  | t :: after =>
    let here := step setting state before after openLinks takes t
    let openLinks' := linksAfter openLinks here.token.kind
    match here.stopped with
    | some name =>
      ⟨here.state, here.token :: abandon openLinks' 0 false after, [], some name⟩
    | none =>
      let rest := walk setting here.state (here.token :: before) openLinks'
        (takesFragment openLinks here.token.kind) after
      ⟨rest.state, here.token :: rest.tokens,
        ⟨.ofKind here.token.kind, here.written⟩ :: rest.pieces, rest.stopped⟩

end

def walkAll (setting : Setting) (tokens : List Token) : Walk :=
  walk setting {} [] 0 false tokens

end TidyMark.Render
