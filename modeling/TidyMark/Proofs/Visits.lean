import TidyMark.Proofs.Walk

/-!
# What a walk comes to

A walk comes to every token of a stream and, in the place of an `inline` token, to its children.
`visits` lists the tokens in that order, each between its siblings.
-/

namespace TidyMark.Render

/-- A token that is visited, between its siblings. -/
structure Visit where
  /-- The siblings before, the nearest first. -/
  before : List Token
  token : Token
  /-- The siblings after, the nearest first. -/
  after : List Token

mutual

/-- A token that stands between two lists of siblings and the tokens in it. -/
def visitsTo (before after : List Token) : Token → List Visit
  | t@⟨kind, _, children, _, _, _, _, _, _, _, _, _, _, _, _⟩ =>
    ⟨before, t, after⟩ :: if kind == .leaf .inline then visits [] children else []

/-- The tokens that stand behind `before` and those in them, in the order of the document. -/
def visits (before : List Token) : List Token → List Visit
  | [] => []
  | t :: after => visitsTo before after t ++ visits (t :: before) after

end

variable {before after : List Token} {t : Token}

theorem visits_nil : visits before [] = [] := by
  rw [visits]

theorem visits_cons_leaf (ht : t.kind ≠ .leaf .inline) :
    visits before (t :: after) = ⟨before, t, after⟩ :: visits (t :: before) after := by
  obtain ⟨kind, content, children, level, href, src, title, alt, align, headingLevel, tight, block,
    params, id, subId⟩ := t
  rw [visits, visitsTo, if_neg (by simpa using ht)]
  rfl

theorem visits_cons_inline (ht : t.kind = .leaf .inline) : visits before (t :: after) =
    ⟨before, t, after⟩ :: (visits [] t.children ++ visits (t :: before) after) := by
  obtain ⟨kind, content, children, level, href, src, title, alt, align, headingLevel, tight, block,
    params, id, subId⟩ := t
  obtain rfl : kind = .leaf .inline := ht
  rw [visits, visitsTo, if_pos (by decide)]
  rfl

end TidyMark.Render
