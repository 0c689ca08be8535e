import TidyMark.Render.Address
import TidyMark.Render.Block
import TidyMark.Unicode.Class

/-!
# Rules for lists

The items of an ordered list are numbered from one, whatever numbers stood in the document. The
bullet of a list goes by its depth, that of a byline, an item that names the author, by another
order of bullets. A list directly after a list of the same kind takes the next bullet, or the other
delimiter of ordinals, so that the two are not read as one.
-/

namespace TidyMark.Render

/-- Whether a word character begins or ends where one text ends and the other begins. -/
def wordBoundary (before after : Option Char) : Bool :=
  before.any inWord != after.any inWord

/-- Whether the text begins with the address of the author's profile. -/
def startsWithProfile (username t : Text) : Bool :=
  let host := (Text.strip? "github" t).or (Text.strip? "twitter" t)
  match host.map fun rest => (Text.strip? ".com" rest).getD rest with
  | none => false
  | some rest =>
    match Text.strip? ('/' :: username) rest with
    | some after => wordBoundary (('/' :: username).getLast?) after.head?
    | none => false

/-- Whether the address of the author's profile stands anywhere in the text. -/
def mentionsProfile (username : Text) : Text → Bool
  | [] => false
  | c :: rest => startsWithProfile username (c :: rest) || mentionsProfile username rest

/-- Whether a token or one of its children speaks of the author's profile. -/
def linksToProfile (username : Text) (t : Token) : Bool :=
  mentionsProfile username t.content || t.children.any (mentionsProfile username ·.href)

/-- The token after the next one, as it is when the tokens before are settled: a text may have
lost its fragment to a link that ends between. -/
def second? (s : Sight) : Option Token :=
  match s.after with
  | a :: b :: _ =>
    some (if a.kind == .closing .link && 0 < s.openLinks then withoutFragment b else b)
  | _ => none

/-- Whether the item that begins here is a byline: the item before it names the author, or its own
content leads to the author's profile. -/
def isByline (options : Options) (s : Sight) : Bool :=
  let afterName :=
    match options.name, s.before[2]? with
    | some name, some t => Text.includes name t.content
    | _, _ => false
  let profile :=
    match options.username, second? s with
    | some username, some t => linksToProfile username t
    | _, _ => false
  afterName || profile

def bullets : List Char := ['*', '-', '+', '~']

def bylineBullets : List Char := ['+', '-', '*', '~']

/-- The depth of an item: an item lies two levels below the item around it. -/
def visualLevel (level : Option Nat) : Nat :=
  (level.getD 0 - 1) / 2

/-- The bullet that a list of bullets has at a depth; past its end it begins again. -/
def bulletFor (bullets : List Char) (depth : Nat) : Char :=
  bullets.getD (depth % bullets.length) '*'

/-- Opens a list. Directly after a list of the same kind and level it is shifted by one. -/
def listOpen (state : State) (s : Sight) (ordered : Bool) : State × Text :=
  let closing : Construct := if ordered then .orderedList else .bulletList
  let shift :=
    match state.closedList with
    | some closed =>
      if preceding? s.before == some (.closing closing) && closed.ordered == ordered &&
          closed.level == s.token.level then closed.shift + 1
      else 0
    | none => 0
  ({ state with lists := ⟨ordered, 1, s.token.level, shift⟩ :: state.lists }, ['\n'])

def listClose (state : State) (s : Sight) : State × Text :=
  ({ state with lists := state.lists.tail, closedList := state.lists.head? }, breakBefore s.after)

def listItemOpen (options : Options) (state : State) (s : Sight) : State × Text :=
  match state.lists with
  | frame :: frames =>
    if frame.ordered then
      let delimiter := if frame.shift % 2 == 0 then '.' else ')'
      ({ state with lists := { frame with next := frame.next + 1 } :: frames },
        Text.ofNat frame.next ++ [delimiter, ' '])
    else (state, [bullet frame.shift, ' '])
  | [] => (state, [bullet 0, ' '])
where
  bullet (shift : Nat) : Char :=
    bulletFor (if isByline options s then bylineBullets else bullets)
      (visualLevel s.token.level + shift)

/-- The end of an item; after a tight block it ends the line. -/
def listItemClose (s : Sight) : Text :=
  if s.before.head?.any (·.tight) then breakBefore s.after else []

end TidyMark.Render
