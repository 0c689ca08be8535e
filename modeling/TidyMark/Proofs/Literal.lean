import TidyMark.Proofs.Prose

/-!
# Literal content

Content that is text, or a reference to a footnote that nothing defines, stands for what is written
(`Inline.spelled`), and a paragraph of it is one token of text (`ofInlines_texts`). Runs of
delimiters are such content as soon as none of them opens what a later one closes
(`resolve_of_apart`).
-/

namespace TidyMark

namespace Markdown

/-- Whether content is text, or is text where no footnote is defined. -/
def Inline.isLiteral : Inline → Bool
  | .text _ | .footnoteRef _ _ _ => true
  | _ => false

/-- The text that literal content stands for. -/
def Inline.spelled : Inline → Text
  | .text t => t
  | .footnoteRef name _ _ => "[^" ++ name ++ "]"
  | _ => []

section Runs

/-- Whether the first of two runs does not open what the second one closes. -/
def Run.Apart (opener closer : Run) : Prop :=
  closer.canClose = true → opener.opens closer = false

instance (opener closer : Run) : Decidable (opener.Apart closer) :=
  inferInstanceAs (Decidable (_ → _))

def Piece.run? : Piece → Option Run
  | .run r => some r
  | .node _ => none

theorem findOpener?_eq_none {closer : Run} : ∀ {before : List Piece} (between : List Piece),
    (∀ r ∈ before.filterMap Piece.run?, r.opens closer = false) →
      findOpener? closer between before = none
  | [], between, _ => rfl
  | .node x :: before, between, h => by
    rw [findOpener?]
    exact findOpener?_eq_none _ h
  | .run r :: before, between, h => by
    have hr : r.opens closer = false := h r (by simp [Piece.run?])
    rw [findOpener?, hr]
    refine findOpener?_eq_none _ fun r' hr' => h r' ?_
    rw [List.filterMap_cons]
    exact List.mem_cons_of_mem _ hr'

/-- A run that nothing opens is read as text, or kept to open what follows. -/
theorem pair_of_apart {closer : Run} {before : List Piece} (hcount : 0 < closer.count)
    (h : ∀ r ∈ before.filterMap Piece.run?, r.opens closer = false) :
    pair closer before closer.count =
      .done (if closer.canOpen then .run closer :: before
        else .node (.text closer.text) :: before) := by
  obtain ⟨n, hn⟩ := Nat.exists_eq_succ_of_ne_zero hcount.ne'
  rw [hn, pair, findOpener?_eq_none [] h, if_neg (by simp [hn])]

theorem pairAll_of_apart : ∀ (rest before : List Piece),
    (∀ r ∈ rest.filterMap Piece.run?, 0 < r.count) →
    (rest.filterMap Piece.run?).Pairwise Run.Apart →
    (∀ o ∈ before.filterMap Piece.run?, ∀ c ∈ rest.filterMap Piece.run?, o.Apart c) →
      (pairAll before rest).map Piece.inline =
        rest.reverse.map Piece.inline ++ before.map Piece.inline
  | [], before, _, _, _ => rfl
  | .node x :: rest, before, hcount, hrest, hbefore => by
    rw [pairAll, pairAll_of_apart rest (.node x :: before) hcount hrest hbefore]
    simp
  | .run r :: rest, before, hcount, hrest, hbefore => by
    have hr : (Piece.run r :: rest).filterMap Piece.run? = r :: rest.filterMap Piece.run? := rfl
    rw [hr] at hcount hrest hbefore
    rw [List.pairwise_cons] at hrest
    have hcount' := fun c hc => hcount c (List.mem_cons_of_mem r hc)
    have hlater := fun o ho c hc => hbefore o ho c (List.mem_cons_of_mem r hc)
    have hkept : ∀ o ∈ (Piece.run r :: before).filterMap Piece.run?,
        ∀ c ∈ rest.filterMap Piece.run?, o.Apart c := by
      intro o ho c hc
      rcases List.mem_cons.1 ho with rfl | ho
      · exact hrest.1 c hc
      · exact hlater o ho c hc
    rw [pairAll]
    by_cases hclose : r.canClose = true
    · rw [if_pos hclose, pair_of_apart (hcount r List.mem_cons_self)
        fun o ho => hbefore o ho r List.mem_cons_self hclose]
      by_cases hopen : r.canOpen = true
      · rw [if_pos hopen]
        exact (pairAll_of_apart rest _ hcount' hrest.2 hkept).trans (by simp)
      · have hinline : (Piece.node (.text r.text) :: before).map Piece.inline =
            (Piece.run r :: before).map Piece.inline := rfl
        rw [if_neg hopen]
        refine (pairAll_of_apart rest (.node (.text r.text) :: before) hcount' hrest.2
          hlater).trans ?_
        rw [hinline]
        simp
    · rw [if_neg hclose, pairAll_of_apart rest _ hcount' hrest.2 hkept]
      simp

/-- Where no run opens what a later one closes, all of them are text. -/
theorem resolve_of_apart {pieces : List Piece}
    (hcount : ∀ r ∈ pieces.filterMap Piece.run?, 0 < r.count)
    (h : (pieces.filterMap Piece.run?).Pairwise Run.Apart) :
    Piece.resolve pieces = pieces.map Piece.inline := by
  rw [Piece.resolve, List.map_reverse, pairAll_of_apart pieces [] hcount h (by simp)]
  simp

end Runs

section Numbering

variable {xs : List Inline} (h : ∀ x ∈ xs, x.isLiteral = true)

include h

theorem numberInlines_of_isLiteral :
    numberInlines ⟨[], 0⟩ xs = (xs.map fun x => .text x.spelled, ⟨[], 0⟩) := by
  induction xs with
  | nil => rfl
  | cons x xs ih =>
    have hx : x.number ⟨[], 0⟩ = (.text x.spelled, ⟨[], 0⟩) := by
      have hl := h x List.mem_cons_self
      cases x
      case text => rfl
      case footnoteRef => rfl
      all_goals cases hl
    rw [numberInlines, hx]
    dsimp only
    rw [ih fun y hy => h y (List.mem_cons_of_mem x hy), List.map_cons]

/-- Where no footnote is defined, references to footnotes are text. -/
theorem ofBlocks_of_isLiteral :
    Document.ofBlocks [.paragraph xs] = ⟨[.paragraph (xs.map fun x => .text x.spelled)], []⟩ := by
  have hnumber : numberBlocks ⟨[], 0⟩ [.paragraph xs] =
      ([.paragraph (xs.map fun x => .text x.spelled)], ⟨[], 0⟩) := by
    simp only [numberBlocks, Block.number, numberInlines_of_isLiteral h]
  rw [Document.ofBlocks]
  simp only [footnotesOf, Block.footnotes, List.append_nil, definitionsOf, List.foldl_nil, hnumber,
    withoutFootnotes, Block.withoutFootnotes?]
  rfl

end Numbering

end Markdown

namespace Token

open Markdown

/-- Texts in a row are one token. -/
theorem ofInlines_texts : ∀ {xs : List Inline} (f : Inline → Text), xs ≠ [] →
    ofInlines [] (xs.map fun x => .text (f x)) = [{ content := xs.flatMap f }]
  | [x], f, _ => by simp [ofInlines, ofInline, consText]
  | x :: y :: xs, f, _ => by
    rw [List.map_cons, ofInlines, ofInlines_texts f (List.cons_ne_nil y xs)]
    rfl

end Token

end TidyMark
