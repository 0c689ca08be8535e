import TidyMark.Proofs.Boundary

/-!
# Pieces as a tree

When every quote and every item is closed by a piece of its own kind, before those around it
(`isBalanced`), the pieces are the leaves and nodes of a tree (`exists_plans`), and a tree can be
drawn without a canvas: a frame is its opening, what is in it, changed on its own, and its closing
(`Plan.drawn`). The canvas, which keeps one text and places in it, comes to the same text
(`run_plans`), behind whatever it holds already.
-/

namespace TidyMark.Render

open Text Canvas

/-- Whether turns close the frames that are open, the innermost first, and those that they open,
each with a turn of its own kind, and no other. -/
def isBalanced : List FrameKind → List Turn → Bool
  | frames, [] => frames.isEmpty
  | frames, .opens k :: turns => isBalanced (k :: frames) turns
  | [], .closes _ :: _ => false
  | k' :: frames, .closes k :: turns => k' == k && isBalanced frames turns

/-- A piece of output, or a frame with everything between its two pieces. -/
inductive Plan where
  | text (t : Text)
  | frame (k : FrameKind) (opening : Text) (body : List Plan) (closing : Text)

namespace Plan

mutual

def pieces : Plan → List Piece
  | .text t => [⟨.plain, t⟩]
  | .frame k opening body closing =>
    ⟨(Turn.opens k).role, opening⟩ :: (allPieces body ++ [⟨(Turn.closes k).role, closing⟩])

def allPieces : List Plan → List Piece
  | [] => []
  | p :: ps => p.pieces ++ allPieces ps

end

mutual

/-- The text of a plan, drawn from the inside out. -/
def drawn : Plan → Text
  | .text t => t
  | .frame k opening body closing => opening ++ k.change opening.byteLength (allDrawn body) ++ closing

def allDrawn : List Plan → Text
  | [] => []
  | p :: ps => p.drawn ++ allDrawn ps

end

theorem allPieces_append (plans plans' : List Plan) :
    allPieces (plans ++ plans') = allPieces plans ++ allPieces plans' := by
  induction plans with
  | nil => rfl
  | cons p plans ih => rw [List.cons_append, allPieces, ih, allPieces, List.append_assoc]

theorem allDrawn_append (plans plans' : List Plan) :
    allDrawn (plans ++ plans') = allDrawn plans ++ allDrawn plans' := by
  induction plans with
  | nil => rfl
  | cons p plans ih => rw [List.cons_append, allDrawn, ih, allDrawn, List.append_assoc]

end Plan

section Reading

theorem turns_cons (p : Piece) (pieces : List Piece) :
    turns (p :: pieces) = p.role.turn?.toList ++ turns pieces := by
  rw [turns, List.filterMap_cons, ← turns]
  cases p.role.turn? <;> rfl

theorem eq_role_of_turn? {p : Piece} {t : Turn} (h : p.role.turn? = some t) :
    p = ⟨t.role, p.text⟩ := by
  obtain ⟨role, text⟩ := p
  cases role <;> cases h <;> rfl

/-- What balanced pieces begin with: plans, up to the piece that closes the innermost frame that is
open, if there is one, and else up to the end. -/
def Begins : List FrameKind → List Piece → Prop
  | [], pieces => ∃ plans, pieces = Plan.allPieces plans
  | k :: frames, pieces => ∃ plans closing rest,
      pieces = Plan.allPieces plans ++ ⟨(Turn.closes k).role, closing⟩ :: rest ∧
        isBalanced frames (turns rest) = true

theorem Begins.cons {frames : List FrameKind} {pieces : List Piece} (h : Begins frames pieces)
    (p : Plan) : Begins frames (p.pieces ++ pieces) := by
  cases frames with
  | nil =>
    obtain ⟨plans, rfl⟩ := h
    exact ⟨p :: plans, rfl⟩
  | cons k frames =>
    obtain ⟨plans, closing, rest, rfl, hrest⟩ := h
    exact ⟨p :: plans, closing, rest, (List.append_assoc _ _ _).symm, hrest⟩

theorem begins_of_isBalanced (pieces : List Piece) (frames : List FrameKind)
    (h : isBalanced frames (turns pieces) = true) : Begins frames pieces := by
  match pieces with
  | [] =>
    cases frames with
    | nil => exact ⟨[], rfl⟩
    | cons k frames => cases h
  | p :: pieces =>
    rw [turns_cons] at h
    rcases hp : p.role.turn? with _ | k | k <;> rw [hp] at h
    · obtain ⟨role, text⟩ := p
      obtain rfl : role = .plain := by
        cases role <;> first | rfl | cases hp
      exact (begins_of_isBalanced pieces frames h).cons (.text text)
    · obtain ⟨plans, closing, rest, hpieces, hrest⟩ := begins_of_isBalanced pieces (k :: frames) h
      -- The frame that opens here is a plan, and the pieces after it are fewer than there were.
      have hlen : rest.length < (p :: pieces).length := by
        simp only [hpieces, List.length_cons, List.length_append]
        omega
      have hframe := (begins_of_isBalanced rest frames hrest).cons (.frame k p.text plans closing)
      rw [hpieces, eq_role_of_turn? hp]
      simpa only [Plan.pieces, List.cons_append, List.append_assoc, List.nil_append] using hframe
    · cases frames with
      | nil => cases h
      | cons k' frames =>
        simp only [Option.toList_some, List.singleton_append, isBalanced, Bool.and_eq_true,
          beq_iff_eq] at h
        obtain ⟨rfl, h⟩ := h
        exact ⟨[], p.text, pieces, by rw [← eq_role_of_turn? hp]; rfl, h⟩
termination_by pieces.length

/-- Balanced pieces are those of a tree. -/
theorem exists_plans {pieces : List Piece} (h : isBalanced [] (turns pieces) = true) :
    ∃ plans, pieces = Plan.allPieces plans :=
  begins_of_isBalanced pieces [] h

end Reading

section Drawing

theorem write_write (c : Canvas) (s t : Text) : (c.write s).write t = c.write (s ++ t) := by
  simp only [write, List.append_assoc]

/-- A frame closes behind what was on the canvas when it opened, and changes only what came since. -/
theorem run_frame (c : Canvas) (k : FrameKind) (opening body closing : Text) (inner : List Piece)
    (h : ∀ c : Canvas, c.run inner = some (c.write body)) :
    c.run (⟨(Turn.opens k).role, opening⟩ :: (inner ++ [⟨(Turn.closes k).role, closing⟩])) =
      some (c.write (opening ++ k.change opening.byteLength body ++ closing)) := by
  cases k with
  | quote =>
    rw [run_cons, Turn.role, add?, Option.bind_some, run_append, h, Option.bind_some, run_cons,
      Turn.role, add?, closeQuote?]
    simp only [write, changeFrom?_byteLength, Option.map_some, Option.bind_some, FrameKind.change]
    simp [run]
  | item =>
    rw [run_cons, Turn.role, add?, Option.bind_some, run_append, h, Option.bind_some, run_cons,
      Turn.role, add?, closeItem?]
    simp only [write, changeFrom?_byteLength, Option.map_some, Option.bind_some, FrameKind.change]
    simp [run]

mutual

theorem run_plan (c : Canvas) : ∀ p : Plan, c.run p.pieces = some (c.write p.drawn)
  | .text t => rfl
  | .frame k opening body closing => by
    rw [Plan.pieces, Plan.drawn]
    exact run_frame c k opening _ closing _ fun c => run_plans c body

/-- A canvas goes on with the text of plans, whatever it holds. -/
theorem run_plans (c : Canvas) : ∀ ps : List Plan,
    c.run (Plan.allPieces ps) = some (c.write (Plan.allDrawn ps))
  | [] => by simp [Plan.allPieces, Plan.allDrawn, run, write]
  | p :: ps => by
    rw [Plan.allPieces, run_append, run_plan c p, Option.bind_some, run_plans _ ps, write_write,
      Plan.allDrawn]

end

/-- Tokens whose quotes and items are properly nested are written as their tree is drawn, and a
frame leaves alone what was written before it opened. -/
theorem draw?_eq_allDrawn {setting : Setting} {tokens : List Token}
    (hstop : (walkAll setting tokens).stopped = none)
    (hbalanced : isBalanced [] (frameTurns tokens) = true) :
    ∃ plans, (walkAll setting tokens).pieces = Plan.allPieces plans ∧
      draw? (walkAll setting tokens).pieces = some { out := Plan.allDrawn plans } ∧
      ∀ (above : List Piece) (p : Plan) (below : List Piece),
        (walkAll setting tokens).pieces = above ++ p.pieces ++ below →
          ∃ c, draw? above = some c ∧ draw? (above ++ p.pieces) = some (c.write p.drawn) := by
  obtain ⟨rest, hrest, hnone⟩ := turns_walk setting tokens {} [] 0 false
  rw [hrest, hnone hstop, List.append_nil] at hbalanced
  obtain ⟨plans, hplans⟩ := exists_plans hbalanced
  rw [← walkAll] at hplans
  have hdraw : draw? (walkAll setting tokens).pieces = some { out := Plan.allDrawn plans } := by
    rw [hplans]
    exact run_plans {} plans
  refine ⟨plans, hplans, hdraw, fun above p below hsplit => ?_⟩
  rw [hsplit, List.append_assoc, draw?, ← run, run_append] at hdraw
  obtain ⟨c, hc, -⟩ := Option.bind_eq_some_iff.1 hdraw
  refine ⟨c, hc, ?_⟩
  rw [draw?, ← run, run_append, hc, Option.bind_some, run_plan]

theorem draw?_eq_allDrawn_quote_in_item : ∃ plans, Plan.allDrawn plans = "* \n  > a\n".toList ∧
    draw? (walkAll (.ofOptions {}) [{ kind := .opening .listItem }, { kind := .opening .blockquote },
      tag "a", { kind := .closing .blockquote }, { kind := .closing .listItem }]).pieces =
        some { out := Plan.allDrawn plans } := by
  let tokens : List Token := [{ kind := .opening .listItem }, { kind := .opening .blockquote },
    tag "a", { kind := .closing .blockquote }, { kind := .closing .listItem }]
  have hstop : (walkAll (.ofOptions {}) tokens).stopped = none := rfl
  obtain ⟨plans, -, hdraw, -⟩ := draw?_eq_allDrawn hstop rfl
  have hout := congrArg (Option.map Canvas.out) hdraw
  exact ⟨plans, (Option.some.inj hout).symm.trans rfl, hdraw⟩

end Drawing

end TidyMark.Render
