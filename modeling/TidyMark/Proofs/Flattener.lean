import Mathlib.Tactic.SplitIfs
import TidyMark.Proofs.Levels
import TidyMark.Tidy
import TidyMark.Token.Flattener

/-!
# One walk makes the token stream

A walk over a block adds the tokens of the block to those it has, one level further in for each
construct that is open, adds the footnotes that are defined in it to those it has met, and leaves
as many constructs open as it has found (`block_eq`). So the walk over the tree that the parser
makes of a source, in which all definitions of footnotes stand behind the other blocks, gives the
token stream of the source (`flatten_ofText`).
-/

namespace TidyMark

namespace Markdown

section Footnotes

variable {α : Type}

mutual

/-- What is left of a block when its footnotes are taken out has none. -/
theorem footnotes_withoutFootnotes? : ∀ {b b' : Block α}, b.withoutFootnotes? = some b' →
    b'.footnotes = []
  | .paragraph _, _, rfl | .heading _ _, _, rfl | .fence _ _, _, rfl | .indented _, _, rfl
  | .html _, _, rfl | .rule, _, rfl | .table _ _ _, _, rfl => rfl
  | .quote body, _, rfl => footnotesOf_withoutFootnotes body
  | .list _ _ items, _, rfl => footnotesOfItems_withoutFootnotes items
  | .descriptions items, _, rfl => footnotesOfDescriptions_withoutFootnotes items

theorem footnotesOf_withoutFootnotes : ∀ bs : List (Block α), footnotesOf (withoutFootnotes bs) = []
  | [] => rfl
  | b :: bs => by
    rw [withoutFootnotes]
    split
    · next b' hb =>
      rw [footnotesOf, footnotes_withoutFootnotes? hb, footnotesOf_withoutFootnotes bs,
        List.nil_append]
    · exact footnotesOf_withoutFootnotes bs

theorem footnotesOfItems_withoutFootnotes : ∀ items : List (Item α),
    footnotesOfItems (itemsWithoutFootnotes items) = []
  | [] => rfl
  | .mk body :: rest => by
    rw [itemsWithoutFootnotes, footnotesOfItems, footnotesOf_withoutFootnotes body,
      footnotesOfItems_withoutFootnotes rest, List.nil_append]

theorem footnotesOfDescriptions_withoutFootnotes : ∀ items : List (Description α),
    footnotesOfDescriptions (detailsWithoutFootnotes items) = []
  | [] => rfl
  | .mk _ _ details :: rest => by
    rw [detailsWithoutFootnotes, footnotesOfDescriptions, footnotesOf_withoutFootnotes details,
      footnotesOfDescriptions_withoutFootnotes rest, List.nil_append]

end

theorem footnotesOf_append (bs bs' : List (Block α)) :
    footnotesOf (bs ++ bs') = footnotesOf bs ++ footnotesOf bs' := by
  induction bs with
  | nil => rfl
  | cons b bs ih => rw [List.cons_append, footnotesOf, ih, footnotesOf, List.append_assoc]

end Footnotes

end Markdown

namespace Token

open Markdown

section Inlines

variable {out after : List Token} {t u : Token}

/-- Tokens with others behind them; texts at the seam become one token. -/
def seam (out : List Token) : List Token → List Token
  | [] => out
  | t :: rest => if t.isText then pushText out t.content ++ rest else out ++ t :: rest

/-- A text that tokens begin with has no attributes. -/
def HasPlainHead (ts : List Token) : Prop :=
  ∀ t ∈ ts.head?, t.isText = true → t = { content := t.content }

theorem hasPlainHead_text (t : Text) (after : List Token) :
    HasPlainHead ({ content := t } :: after) := by
  rintro u ⟨⟩ -
  rfl

theorem hasPlainHead_cons (ht : t.isText = false) (after : List Token) :
    HasPlainHead (t :: after) := by
  rintro u ⟨⟩ hu
  exact absurd hu (by simp [ht])

theorem hasPlainHead_consText (t : Text) (h : HasPlainHead after) :
    HasPlainHead (consText t after) := by
  unfold consText
  split
  · next next rest =>
    split_ifs with hk
    · rw [h next rfl hk]
      exact hasPlainHead_text _ rest
    · exact hasPlainHead_text t _
  · exact hasPlainHead_text t []

theorem hasPlainHead_ofInline (h : HasPlainHead after) (x : Inline) :
    HasPlainHead (ofInline after x) := by
  cases x with
  | text t => exact hasPlainHead_consText t h
  | _ => exact hasPlainHead_cons rfl _

theorem hasPlainHead_ofInlines (h : HasPlainHead after) (xs : List Inline) :
    HasPlainHead (ofInlines after xs) := by
  induction xs with
  | nil => exact h
  | cons x xs ih => exact hasPlainHead_ofInline ih x

theorem pushText_concat (hu : u.isText = false) (out : List Token) (t : Text) :
    pushText (out ++ [u]) t = out ++ [u] ++ [{ content := t }] := by
  rw [isText] at hu
  simp [pushText, hu]

theorem pushText_pushText (out : List Token) (t t' : Text) :
    pushText (pushText out t) t' = pushText out (t ++ t') := by
  rcases out.eq_nil_or_concat with rfl | ⟨out, last, rfl⟩
  · rfl
  · by_cases hk : last.kind = .leaf .text <;> simp [pushText, hk]

theorem seam_pushText (out : List Token) (t : Text) (after : List Token) :
    seam (pushText out t) after = seam out (consText t after) := by
  rcases after with _ | ⟨next, rest⟩
  · simp [seam, consText, isText]
  · by_cases hk : next.kind = .leaf .text
    · simp [seam, consText, isText, hk, pushText_pushText]
    · simp [seam, consText, isText, hk]

theorem seam_concat (out : List Token) (h : HasPlainHead after) (hu : u.isText = false) :
    seam (out ++ [u]) after = seam out (u :: after) := by
  rcases after with _ | ⟨next, rest⟩
  · simp [seam, hu]
  · by_cases hk : next.isText = true
    · have hnext := h next rfl hk
      rw [seam, seam, if_pos hk, if_neg (by simp [hu]), pushText_concat hu, ← hnext]
      simp
    · simp [seam, hu, hk]

/-- A construct of inline content, between its brackets. -/
theorem seam_wrapped {xs : List Inline} {opening closing : Token}
    (h : HasPlainHead after) (ho : opening.isText = false) (hc : closing.isText = false)
    (hxs : seam (pushInlines (out ++ [opening]) xs) (closing :: after) =
      seam (out ++ [opening]) (ofInlines (closing :: after) xs)) :
    seam (pushInlines (out ++ [opening]) xs ++ [closing]) after =
      seam out (opening :: ofInlines (closing :: after) xs) := by
  have hinside := hasPlainHead_ofInlines (hasPlainHead_cons hc after) xs
  rw [seam_concat _ h hc, hxs, seam_concat _ hinside ho]

mutual

/-- What is put behind tokens are the tokens of the content, from the seam on. -/
theorem seam_pushInline (out : List Token) {after : List Token} (h : HasPlainHead after) :
    ∀ x : Inline, seam (pushInline out x) after = seam out (ofInline after x)
  | .text t => seam_pushText out t after
  | .softBreak | .lineBreak | .code _ | .html _ | .superscript _ | .image _ _ _
  | .footnoteRef _ _ _ => seam_concat out h rfl
  | .emphasis xs | .strong xs | .strikethrough xs | .link _ _ xs =>
    seam_wrapped h rfl rfl (seam_pushInlines _ (hasPlainHead_cons rfl after) xs)

theorem seam_pushInlines (out : List Token) {after : List Token} (h : HasPlainHead after) :
    ∀ xs : List Inline, seam (pushInlines out xs) after = seam out (ofInlines after xs)
  | [] => rfl
  | x :: xs => by
    rw [pushInlines, seam_pushInlines _ h xs,
      seam_pushInline _ (hasPlainHead_ofInlines h xs) x, ofInlines]

end

theorem seam_nil (h : HasPlainHead after) : seam [] after = after := by
  rcases after with _ | ⟨t, rest⟩
  · rfl
  · rw [seam]
    split_ifs with hk
    · exact congrArg (· :: rest) (h t rfl hk).symm
    · exact List.nil_append _

theorem pushInlines_eq (xs : List Inline) : pushInlines [] xs = ofInlines [] xs := by
  have hnil : HasPlainHead [] := fun t ht => nomatch ht
  calc pushInlines [] xs
    _ = seam (pushInlines [] xs) [] := rfl
    _ = seam [] (ofInlines [] xs) := seam_pushInlines [] hnil xs
    _ = ofInlines [] xs := seam_nil (hasPlainHead_ofInlines hnil xs)

end Inlines

namespace Flattener

/-- A walk that has come across some more tokens and footnotes. -/
def add (f : Flattener) (ts : List Token) (notes : List (Text × List (Block (List Inline)))) :
    Flattener :=
  { f with tokens := f.tokens ++ ts, footnotes := f.footnotes ++ notes }

section Adding

variable (f : Flattener) (ts : List Token) (notes : List (Text × List (Block (List Inline))))

@[simp] theorem depth_add : (f.add ts notes).depth = f.depth := rfl

@[simp] theorem depth_opens (c : Construct) (t : Token) : (f.opens c t).depth = f.depth + 1 := rfl

theorem add_nil : f.add [] [] = f := by
  simp only [add, List.append_nil]

theorem add_add (us : List Token) (more : List (Text × List (Block (List Inline)))) :
    (f.add ts notes).add us more = f.add (ts ++ us) (notes ++ more) := by
  simp only [add, List.append_assoc]

theorem leaf_eq (t : Token) : f.leaf t = f.add [leafAt f.depth t] [] := by
  simp only [leaf, add, List.append_nil]

/-- A construct around what a walk comes across adds its two brackets and is closed again. -/
theorem closes_add_opens (c : Construct) (t t' : Token) :
    ((f.opens c t).add ts notes).closes c t' =
      f.add ({ t with kind := .opening c, level := some f.depth } ::
        (ts ++ [{ t' with kind := .closing c, level := some f.depth }])) notes := by
  simp only [opens, add, closes, Nat.add_sub_cancel, List.append_assoc, List.cons_append,
    List.nil_append]

theorem closes_add_opens_self (c : Construct) (t : Token) :
    ((f.opens c t).add ts notes).closes c t = f.add (enclose f.depth c t ts) notes :=
  closes_add_opens f ts notes c t t

/-- Steps that add something each add all of it, one behind another. -/
theorem foldl_eq {α : Type} {step : Flattener → α → Flattener} (ts : Nat → α → List Token)
    (notes : α → List (Text × List (Block (List Inline))))
    (h : ∀ f a, step f a = f.add (ts f.depth a) (notes a)) (as : List α) :
    as.foldl step f = f.add (as.flatMap (ts f.depth)) (as.flatMap notes) := by
  induction as generalizing f with
  | nil => exact (add_nil f).symm
  | cons a as ih =>
    rw [List.foldl_cons, ih, h, add_add, depth_add, List.flatMap_cons, List.flatMap_cons]

end Adding

section Blocks

theorem inlines_eq (f : Flattener) (xs : List Inline) :
    f.inlines xs = f.add (inlineAt f.depth xs) [] := by
  rw [inlines, leaf_eq, pushInlines_eq, inlineAt]

theorem paragraph_eq (f : Flattener) (tight : Bool) (xs : List Inline) :
    f.paragraph tight xs = f.add (paragraphAt f.depth tight xs) [] := by
  rw [paragraph, inlines_eq, closes_add_opens_self, depth_opens, paragraphAt]

theorem cell_eq (f : Flattener) (c : Construct) (align : Option Align) (xs : List Inline) :
    f.cell c align xs = f.add (cellAt f.depth c align xs) [] := by
  rw [cell, inlines_eq, closes_add_opens, depth_opens, cellAt]

theorem row_eq (f : Flattener) (c : Construct) (aligns : List (Option Align))
    (cells : List (List Inline)) : f.row c aligns cells = f.add (rowAt f.depth c aligns cells) [] := by
  have hcells := foldl_eq (f.opens .tableRow {})
    (fun depth e => cellAt depth c (aligns[e.2]?.join) e.1) (fun _ => [])
    (fun f e => cell_eq f c (aligns[e.2]?.join) e.1) cells.zipIdx
  rw [List.flatMap_eq_nil_iff.2 fun _ _ => rfl] at hcells
  rw [rowAt, ← closes_add_opens_self]
  exact congrArg (·.closes .tableRow {}) hcells

/-- Once the body of a table is open, the rows are added to it. -/
theorem rows_eq (f : Flattener) (aligns : List (Option Align)) (rs : List (List (List Inline))) :
    f.rows aligns true (rs.map (false, ·)) =
      (f.add (rs.flatMap (rowAt f.depth .dataCell aligns)) [], true) := by
  induction rs generalizing f with
  | nil => exact congrArg (·, true) (add_nil f).symm
  | cons r rs ih =>
    rw [List.map_cons, rows, if_pos rfl, row_eq, ih, add_add, depth_add, List.flatMap_cons,
      List.nil_append]

/-- The body of a table is opened at its first row, if it has one. -/
theorem closeBody_rows (f : Flattener) (aligns : List (Option Align))
    (rs : List (List (List Inline))) : closeBody (f.rows aligns false (rs.map (false, ·))) =
      f.add (if rs.isEmpty then []
        else enclose f.depth .tableBody {} (rs.flatMap (rowAt (f.depth + 1) .dataCell aligns))) [] := by
  cases rs with
  | nil => exact (add_nil f).symm
  | cons r rs =>
    have hopened : f.rows aligns false ((r :: rs).map (false, ·)) =
        (f.opens .tableBody {}).rows aligns true ((r :: rs).map (false, ·)) := rfl
    rw [hopened, rows_eq, closeBody, closes_add_opens_self]
    rfl

theorem table_eq (f : Flattener) (aligns : List (Option Align)) (header : List (List Inline))
    (rs : List (List (List Inline))) : f.table aligns ((true, header) :: rs.map (false, ·)) =
      f.add (tableAt f.depth aligns header rs) [] := by
  rw [table, rows, row_eq, closes_add_opens_self, closeBody_rows, add_add, closes_add_opens_self]
  rfl

mutual

/-- A walk over a block adds the tokens of the block, meets the footnotes that are defined in it,
and leaves as many constructs open as there were. -/
theorem block_eq (f : Flattener) (tight : Bool) : ∀ b : Block (List Inline),
    f.block tight b = f.add (ofBlock f.depth tight b) b.footnotes
  | .paragraph xs => paragraph_eq f tight xs
  | .heading level xs => by
    rw [block, inlines_eq, closes_add_opens_self]
    rfl
  | .quote body => by
    rw [block, blocks_eq, closes_add_opens_self]
    rfl
  | .list kind tight items => by
    rw [block, items_eq, closes_add_opens_self]
    rfl
  | .fence info literal => leaf_eq f _
  | .indented literal => leaf_eq f _
  | .html literal => leaf_eq f _
  | .rule => leaf_eq f _
  | .table aligns header rows => table_eq f aligns header rows
  | .footnote name body => by
    rw [block, add]
    exact congrArg (Flattener.mk · f.depth _) (List.append_nil _).symm
  | .descriptions items => by
    rw [block, descriptions_eq, closes_add_opens_self]
    rfl

theorem blocks_eq (f : Flattener) (tight : Bool) : ∀ bs : List (Block (List Inline)),
    f.blocks tight bs = f.add (ofBlocks f.depth tight bs) (footnotesOf bs)
  | [] => (add_nil f).symm
  | b :: bs => by
    rw [blocks, block_eq, blocks_eq, add_add, depth_add, ofBlocks, footnotesOf]

theorem items_eq (f : Flattener) (tight : Bool) : ∀ items : List (Item (List Inline)),
    f.items tight items = f.add (ofItems f.depth tight items) (footnotesOfItems items)
  | [] => (add_nil f).symm
  | .mk body :: rest => by
    rw [items, blocks_eq, closes_add_opens_self, items_eq, add_add, depth_add, ofItems,
      footnotesOfItems]
    rfl

theorem descriptions_eq (f : Flattener) : ∀ items : List (Description (List Inline)),
    f.descriptions items = f.add (ofDescriptions f.depth items) (footnotesOfDescriptions items)
  | [] => (add_nil f).symm
  | .mk _ (some xs) details :: rest => by
    rw [descriptions, paragraph_eq, closes_add_opens_self, blocks_eq, closes_add_opens_self,
      descriptions_eq, add_add, add_add, depth_add, depth_add, ← List.append_assoc]
    rfl
  | .mk _ none details :: rest => by
    rw [descriptions, blocks_eq, closes_add_opens_self, descriptions_eq, add_add, depth_add]
    rfl

end

end Blocks

section Notes

/-- Only what has been added since is searched for the place of an anchor. -/
theorem anchor_add (f : Flattener) (ts : List Token)
    (notes : List (Text × List (Block (List Inline)))) (id : Nat) :
    (f.add ts notes).anchor f.tokens.length id = f.add (withAnchor f.depth id ts) notes := by
  rw [anchor, withAnchor, add, List.drop_left]
  dsimp only
  cases anchorFirst? { kind := .leaf .footnoteAnchor, id } ts.reverse with
  | some reversed =>
    dsimp only
    rw [List.take_left, add]
  | none =>
    dsimp only
    rw [leaf, add, List.append_assoc]

theorem note_eq (f : Flattener) (id : Nat) (body : List (Block (List Inline))) :
    f.note id body = f.add
      (enclose f.depth .footnote { id }
        (withAnchor (f.depth + 1) id (ofBlocks (f.depth + 1) true body)))
      (footnotesOf body) := by
  rw [note, blocks_eq, anchor_add, closes_add_opens_self, depth_opens]

/-- The block of the footnotes that have been met, numbered in the order in which they were. -/
theorem tokens_notes (f : Flattener) (hdepth : f.depth = 0) :
    f.notes.tokens = f.tokens ++ ofNotes (f.footnotes.map fun (name, body) => ⟨name, 0, body⟩) := by
  obtain ⟨ts, depth, definitions⟩ := f
  obtain rfl : depth = 0 := hdepth
  rw [Flattener.notes, ofNotes, List.isEmpty_map]
  split_ifs
  · exact (List.append_nil _).symm
  · have hnotes := foldl_eq (opens ⟨ts, 0, []⟩ .footnoteBlock {})
      (fun depth (e : (Text × List (Block (List Inline))) × Nat) =>
        enclose depth .footnote { id := e.2 }
          (withAnchor (depth + 1) e.2 (ofBlocks (depth + 1) true e.1.2)))
      (fun e => footnotesOf e.1.2) (fun f e => note_eq f e.2 e.1.2) definitions.zipIdx
    have hblock := congrArg (fun g => (g.closes .footnoteBlock {}).tokens) hnotes
    rw [closes_add_opens_self] at hblock
    rw [List.zipIdx_map, List.flatMap_map]
    exact hblock

end Notes

end Flattener

/-- The walk over a tree gives the tokens of its blocks and, in a block at the end, those of the
footnotes that are defined in it. -/
theorem flatten_eq (bs : List (Block (List Inline))) : flatten bs =
    ofBlocks 0 false bs ++ ofNotes ((footnotesOf bs).map fun (name, body) => ⟨name, 0, body⟩) := by
  rw [flatten, Flattener.blocks_eq, Flattener.tokens_notes _ rfl]
  rfl

section Documents

/-- Definitions have no tokens in their place, and are met in their order. -/
theorem definitions_eq (notes : List Note) :
    ofBlocks 0 false (notes.map fun note => .footnote note.name note.body) = [] ∧
      footnotesOf (notes.map fun note => .footnote note.name note.body) =
        notes.map fun note => (note.name, note.body) := by
  induction notes with
  | nil => exact ⟨rfl, rfl⟩
  | cons note notes ih => exact ⟨ih.1, congrArg ((note.name, note.body) :: ·) ih.2⟩

/-- How often a footnote is referred to does not count for its tokens. -/
theorem ofNotes_eq (notes : List Note) :
    ofNotes (notes.map fun note => ⟨note.name, 0, note.body⟩) = ofNotes notes := by
  rw [ofNotes, ofNotes, List.isEmpty_map, List.zipIdx_map, List.flatMap_map]
  rfl

/-- The walk over a document whose footnotes are all defined at its end gives its token stream. -/
theorem flatten_blocks {d : Document} (h : footnotesOf d.body = []) :
    flatten d.blocks = ofDocument d := by
  obtain ⟨htokens, hmet⟩ := definitions_eq d.notes
  rw [flatten_eq, Document.blocks, ofBlocks_append, footnotesOf_append, htokens, hmet, h,
    List.append_nil, List.nil_append, List.map_map, ofDocument, ← ofNotes_eq d.notes]
  rfl

/-- For every source, the walk over the tree that the parser makes gives the token stream. -/
theorem flatten_ofText (source : Text) :
    flatten (Document.ofText source).blocks = tokenize source :=
  flatten_blocks (footnotesOf_withoutFootnotes _)

end Documents

end Token

end TidyMark
