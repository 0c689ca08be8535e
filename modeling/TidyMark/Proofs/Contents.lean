import Mathlib.Tactic.SplitIfs
import TidyMark.Markdown.Basic

/-!
# The inline contents of a document

Wherever inline content stands in a document, in a cell of a table, in a footnote or in a term, it
has been read from a text by itself and numbered after that. So what holds of everything that is
read, and is kept up by numbering, holds of all contents of a document (`forall_contents_ofText`).
-/

namespace TidyMark.Markdown

mutual

/-- The contents of a block, in the order of the source. -/
def Block.contents {α : Type} : Block α → List α
  | .paragraph a | .heading _ a => [a]
  | .quote body | .footnote _ body => contentsOf body
  | .list _ _ items => contentsOfItems items
  | .table _ header rows => header ++ rows.flatten
  | .descriptions items => contentsOfDescriptions items
  | .fence _ _ | .indented _ | .html _ | .rule => []

def contentsOf {α : Type} : List (Block α) → List α
  | [] => []
  | b :: rest => b.contents ++ contentsOf rest

def contentsOfItems {α : Type} : List (Item α) → List α
  | [] => []
  | .mk body :: rest => contentsOf body ++ contentsOfItems rest

def contentsOfDescriptions {α : Type} : List (Description α) → List α
  | [] => []
  | .mk _ term details :: rest => term.toList ++ contentsOf details ++ contentsOfDescriptions rest

end

/-- The contents of a document, those of its footnotes at the end. -/
def Document.contents (d : Document) : List (List Inline) :=
  contentsOf d.body ++ d.notes.flatMap fun note => contentsOf note.body

section Trees

variable {α β : Type}

mutual

theorem contents_map (f : α → β) : ∀ b : Block α, (b.map f).contents = b.contents.map f
  | .paragraph a | .heading _ a => rfl
  | .quote body | .footnote _ body => by
    rw [Block.map, Block.contents, Block.contents, contentsOf_map f body]
  | .list _ _ items => by
    rw [Block.map, Block.contents, Block.contents, contentsOf_mapItems f items]
  | .table _ header rows => by
    rw [Block.map, Block.contents, Block.contents, List.map_append, List.map_flatten]
  | .descriptions items => by
    rw [Block.map, Block.contents, Block.contents, contentsOf_mapDescriptions f items]
  | .fence _ _ | .indented _ | .html _ | .rule => rfl

theorem contentsOf_map (f : α → β) : ∀ bs : List (Block α),
    contentsOf (mapBlocks f bs) = (contentsOf bs).map f
  | [] => rfl
  | b :: rest => by
    rw [mapBlocks, contentsOf, contentsOf, List.map_append, contents_map f b,
      contentsOf_map f rest]

theorem contentsOf_mapItems (f : α → β) : ∀ items : List (Item α),
    contentsOfItems (mapItems f items) = (contentsOfItems items).map f
  | [] => rfl
  | .mk body :: rest => by
    rw [mapItems, contentsOfItems, contentsOfItems, List.map_append, contentsOf_map f body,
      contentsOf_mapItems f rest]

theorem contentsOf_mapDescriptions (f : α → β) : ∀ items : List (Description α),
    contentsOfDescriptions (mapDescriptions f items) = (contentsOfDescriptions items).map f
  | [] => rfl
  | .mk _ term details :: rest => by
    rw [mapDescriptions, contentsOfDescriptions, contentsOfDescriptions, List.map_append,
      List.map_append, contentsOf_map f details, contentsOf_mapDescriptions f rest]
    cases term <;> rfl

end

mutual

/-- What stands in a footnote stands in the blocks that it is defined in. -/
theorem contents_footnotes {note : Text × List (Block α)} : ∀ {b : Block α}, note ∈ b.footnotes →
    contentsOf note.2 ⊆ b.contents
  | .footnote _ _, h => by
    rw [Block.footnotes, List.mem_singleton] at h
    rw [h, Block.contents]
    exact List.Subset.refl _
  | .quote _, h => contents_footnotesOf h
  | .list _ _ _, h => contents_footnotesOfItems h
  | .descriptions _, h => contents_footnotesOfDescriptions h
  | .paragraph _, h | .heading _ _, h | .table _ _ _, h | .fence _ _, h | .indented _, h
  | .html _, h | .rule, h => by cases h

theorem contents_footnotesOf {note : Text × List (Block α)} : ∀ {bs : List (Block α)},
    note ∈ footnotesOf bs → contentsOf note.2 ⊆ contentsOf bs
  | [], h => by cases h
  | b :: rest, h => by
    rcases List.mem_append.1 h with h | h
    · exact List.subset_append_of_subset_left _ (contents_footnotes h)
    · exact List.subset_append_of_subset_right _ (contents_footnotesOf h)

theorem contents_footnotesOfItems {note : Text × List (Block α)} : ∀ {items : List (Item α)},
    note ∈ footnotesOfItems items → contentsOf note.2 ⊆ contentsOfItems items
  | [], h => by cases h
  | .mk body :: rest, h => by
    rcases List.mem_append.1 h with h | h
    · exact List.subset_append_of_subset_left _ (contents_footnotesOf h)
    · exact List.subset_append_of_subset_right _ (contents_footnotesOfItems h)

theorem contents_footnotesOfDescriptions {note : Text × List (Block α)} :
    ∀ {items : List (Description α)}, note ∈ footnotesOfDescriptions items →
      contentsOf note.2 ⊆ contentsOfDescriptions items
  | [], h => by cases h
  | .mk _ term details :: rest, h => by
    rcases List.mem_append.1 h with h | h
    · exact List.subset_append_of_subset_left _
        (List.subset_append_of_subset_right _ (contents_footnotesOf h))
    · exact List.subset_append_of_subset_right _ (contents_footnotesOfDescriptions h)

end

mutual

/-- Taking out footnotes takes out their contents. -/
theorem sublist_withoutFootnotes? : ∀ {b b' : Block α}, b.withoutFootnotes? = some b' →
    b'.contents.Sublist b.contents
  | .footnote _ _, _, h => by cases h
  | .quote body, _, h => by
    cases h
    exact sublist_withoutFootnotes body
  | .list _ _ items, _, h => by
    cases h
    exact sublist_itemsWithoutFootnotes items
  | .descriptions items, _, h => by
    cases h
    exact sublist_detailsWithoutFootnotes items
  | .paragraph _, _, h | .heading _ _, _, h | .table _ _ _, _, h | .fence _ _, _, h
  | .indented _, _, h | .html _, _, h | .rule, _, h => by
    cases h
    exact .refl _

theorem sublist_withoutFootnotes : ∀ bs : List (Block α),
    (contentsOf (withoutFootnotes bs)).Sublist (contentsOf bs)
  | [] => .refl _
  | b :: rest => by
    have hrest := sublist_withoutFootnotes rest
    rw [withoutFootnotes, contentsOf]
    split
    · next b' hb => exact (sublist_withoutFootnotes? hb).append hrest
    · exact hrest.trans (List.sublist_append_right _ _)

theorem sublist_itemsWithoutFootnotes : ∀ items : List (Item α),
    (contentsOfItems (itemsWithoutFootnotes items)).Sublist (contentsOfItems items)
  | [] => .refl _
  | .mk body :: rest =>
    (sublist_withoutFootnotes body).append (sublist_itemsWithoutFootnotes rest)

theorem sublist_detailsWithoutFootnotes : ∀ items : List (Description α),
    (contentsOfDescriptions (detailsWithoutFootnotes items)).Sublist (contentsOfDescriptions items)
  | [] => .refl _
  | .mk _ term details :: rest =>
    ((List.Sublist.refl term.toList).append (sublist_withoutFootnotes details)).append
      (sublist_detailsWithoutFootnotes rest)

end

end Trees

section Numbering

/-- A property of contents that numbering keeps up. -/
def Numbers (p : List Inline → Prop) : Prop :=
  ∀ n xs, p xs → p (numberInlines n xs).1

theorem forall_numberEach {α : Type} {f : Numbering → α → α × Numbering} {p : α → Prop}
    (hf : ∀ n a, p a → p (f n a).1) : ∀ {n : Numbering} {as : List α}, (∀ a ∈ as, p a) →
      ∀ a ∈ (numberEach f n as).1, p a
  | _, [], _ => nofun
  | n, a :: as, h => by
    obtain ⟨ha, has⟩ := List.forall_mem_cons.1 h
    exact List.forall_mem_cons.2 ⟨hf n a ha, forall_numberEach hf has⟩

variable {p : List Inline → Prop}

mutual

theorem forall_contents_number (hp : Numbers p) : ∀ {n : Numbering} {b : Block (List Inline)},
    (∀ xs ∈ b.contents, p xs) → ∀ xs ∈ (b.number n).1.contents, p xs
  | n, .paragraph xs, h | n, .heading _ xs, h =>
    List.forall_mem_singleton.2 (hp n xs (h xs (List.mem_singleton_self xs)))
  | n, .quote body, h | n, .footnote _ body, h => forall_contents_numberBlocks hp h
  | n, .list _ _ items, h => forall_contents_numberItems hp h
  | n, .table _ header rows, h => by
    obtain ⟨hheader, hrows⟩ := List.forall_mem_append.1 h
    refine List.forall_mem_append.2 ⟨forall_numberEach hp hheader, ?_⟩
    have hrows' : ∀ row ∈ rows, ∀ xs ∈ row, p xs := fun row hrow xs hxs =>
      hrows xs (List.mem_flatten.2 ⟨row, hrow, hxs⟩)
    intro xs hxs
    obtain ⟨row, hrow, hxs⟩ := List.mem_flatten.1 hxs
    exact forall_numberEach (fun _ _ => forall_numberEach hp) hrows' row hrow xs hxs
  | n, .descriptions items, h => forall_contents_numberDescriptions hp h
  | _, .fence _ _, _ | _, .indented _, _ | _, .html _, _ | _, .rule, _ => nofun

theorem forall_contents_numberBlocks (hp : Numbers p) :
    ∀ {n : Numbering} {bs : List (Block (List Inline))}, (∀ xs ∈ contentsOf bs, p xs) →
      ∀ xs ∈ contentsOf (numberBlocks n bs).1, p xs
  | _, [], _ => nofun
  | n, b :: rest, h => by
    obtain ⟨hb, hrest⟩ := List.forall_mem_append.1 h
    exact List.forall_mem_append.2
      ⟨forall_contents_number hp hb, forall_contents_numberBlocks hp hrest⟩

theorem forall_contents_numberItems (hp : Numbers p) :
    ∀ {n : Numbering} {items : List (Item (List Inline))}, (∀ xs ∈ contentsOfItems items, p xs) →
      ∀ xs ∈ contentsOfItems (numberItems n items).1, p xs
  | _, [], _ => nofun
  | n, .mk body :: rest, h => by
    obtain ⟨hbody, hrest⟩ := List.forall_mem_append.1 h
    exact List.forall_mem_append.2
      ⟨forall_contents_numberBlocks hp hbody, forall_contents_numberItems hp hrest⟩

theorem forall_contents_numberDescriptions (hp : Numbers p) :
    ∀ {n : Numbering} {items : List (Description (List Inline))},
      (∀ xs ∈ contentsOfDescriptions items, p xs) →
        ∀ xs ∈ contentsOfDescriptions (numberDescriptions n items).1, p xs
  | _, [], _ => nofun
  | n, .mk _ term details :: rest, h => by
    obtain ⟨hdetails, hrest⟩ := List.forall_mem_append.1 h
    obtain ⟨hterm, hdetails⟩ := List.forall_mem_append.1 hdetails
    refine List.forall_mem_append.2
      ⟨List.forall_mem_append.2 ⟨?_, forall_contents_numberBlocks hp hdetails⟩,
        forall_contents_numberDescriptions hp hrest⟩
    cases term with
    | none => exact nofun
    | some xs => exact List.forall_mem_singleton.2 (hp n xs (hterm xs (List.mem_singleton_self xs)))

end

variable {q : Numbering → Prop}

mutual

/-- Numbering does nothing to the footnotes but refer to them. -/
theorem preserves_number (h : ∀ n name, q n → q (n.refer name).2) :
    ∀ {n : Numbering} (_ : q n) (x : Inline), q (x.number n).2
  | n, hn, .footnoteRef name _ _ => by
    have hrefer := h n name hn
    rw [Inline.number, numberReference]
    split
    · next heq => rwa [heq] at hrefer
    · next heq => rwa [heq] at hrefer
  | _, hn, .emphasis xs | _, hn, .strong xs | _, hn, .strikethrough xs | _, hn, .superscript xs
  | _, hn, .link _ _ xs | _, hn, .image _ _ xs => preserves_numberInlines h hn xs
  | _, hn, .text _ | _, hn, .softBreak | _, hn, .lineBreak | _, hn, .code _ | _, hn, .html _ => hn

theorem preserves_numberInlines (h : ∀ n name, q n → q (n.refer name).2) :
    ∀ {n : Numbering} (_ : q n) (xs : List Inline), q (numberInlines n xs).2
  | _, hn, [] => hn
  | _, hn, x :: rest => preserves_numberInlines h (preserves_number h hn x) rest

end

theorem preserves_numberEach {α : Type} {f : Numbering → α → α × Numbering}
    (hf : ∀ {n}, q n → ∀ a, q (f n a).2) : ∀ {n : Numbering} (_ : q n) (as : List α),
      q (numberEach f n as).2
  | _, hn, [] => hn
  | _, hn, a :: as => preserves_numberEach hf (hf hn a) as

mutual

theorem preserves_numberBlock (h : ∀ n name, q n → q (n.refer name).2) :
    ∀ {n : Numbering} (_ : q n) (b : Block (List Inline)), q (b.number n).2
  | _, hn, .paragraph xs | _, hn, .heading _ xs => preserves_numberInlines h hn xs
  | _, hn, .quote body | _, hn, .footnote _ body => preserves_numberBlocks h hn body
  | _, hn, .list _ _ items => preserves_numberItems h hn items
  | _, hn, .table _ header rows =>
    preserves_numberEach (preserves_numberEach (preserves_numberInlines h))
      (preserves_numberEach (preserves_numberInlines h) hn header) rows
  | _, hn, .descriptions items => preserves_numberDescriptions h hn items
  | _, hn, .fence _ _ | _, hn, .indented _ | _, hn, .html _ | _, hn, .rule => hn

theorem preserves_numberBlocks (h : ∀ n name, q n → q (n.refer name).2) :
    ∀ {n : Numbering} (_ : q n) (bs : List (Block (List Inline))), q (numberBlocks n bs).2
  | _, hn, [] => hn
  | _, hn, b :: rest => preserves_numberBlocks h (preserves_numberBlock h hn b) rest

theorem preserves_numberItems (h : ∀ n name, q n → q (n.refer name).2) :
    ∀ {n : Numbering} (_ : q n) (items : List (Item (List Inline))),
      q (numberItems n items).2
  | _, hn, [] => hn
  | _, hn, .mk body :: rest => preserves_numberItems h (preserves_numberBlocks h hn body) rest

theorem preserves_numberDescriptions (h : ∀ n name, q n → q (n.refer name).2) :
    ∀ {n : Numbering} (_ : q n) (items : List (Description (List Inline))),
      q (numberDescriptions n items).2
  | _, hn, [] => hn
  | _, hn, .mk _ none details :: rest =>
    preserves_numberDescriptions h (preserves_numberBlocks h hn details) rest
  | _, hn, .mk _ (some xs) details :: rest =>
    preserves_numberDescriptions h
      (preserves_numberBlocks h (preserves_numberInlines h hn xs) details) rest

end

end Numbering

section Documents

variable {p : List Inline → Prop}

/-- Whether all contents of these footnotes have this property. -/
def AllBodies (p : List Inline → Prop) (defined : List Definition) : Prop :=
  ∀ d ∈ defined, ∀ xs ∈ contentsOf d.body, p xs

theorem AllBodies.define {defined : List Definition} {d : Definition} (h : AllBodies p defined)
    (hd : ∀ xs ∈ contentsOf d.body, p xs) : AllBodies p (Markdown.define defined d) := by
  unfold Markdown.define
  split_ifs
  · refine List.forall_mem_map.2 fun e he => ?_
    split_ifs
    · exact hd
    · exact h e he
  · exact List.forall_mem_append.2 ⟨h, List.forall_mem_singleton.2 hd⟩

theorem AllBodies.definitionsOf {notes : List (Text × List (Block (List Inline)))}
    (h : ∀ note ∈ notes, ∀ xs ∈ contentsOf note.2, p xs) :
    AllBodies p (Markdown.definitionsOf notes) := by
  unfold Markdown.definitionsOf
  have hempty : AllBodies p [] := nofun
  generalize ([] : List Definition) = defined at hempty ⊢
  induction notes generalizing defined with
  | nil => exact hempty
  | cons note notes ih =>
    obtain ⟨hnote, hnotes⟩ := List.forall_mem_cons.1 h
    exact ih hnotes _ (hempty.define hnote)

theorem AllBodies.refer {n : Numbering} (h : AllBodies p n.defined) (name : Text) :
    AllBodies p (n.refer name).2.defined := by
  unfold Numbering.refer
  dsimp only
  split
  · exact h
  · next d hd =>
    refine List.forall_mem_map.2 fun e he => ?_
    split_ifs
    · exact h d (List.mem_of_find?_eq_some hd)
    · exact h e he

theorem forall_contents_ofBlocks (hp : Numbers p) {blocks : List (Block (List Inline))}
    (h : ∀ xs ∈ contentsOf blocks, p xs) : ∀ xs ∈ (Document.ofBlocks blocks).contents, p xs := by
  have hnotes : ∀ {blocks : List (Block (List Inline))}, (∀ xs ∈ contentsOf blocks, p xs) →
      AllBodies p (definitionsOf (footnotesOf blocks)) := fun hblocks =>
    .definitionsOf fun note hnote xs hxs => hblocks xs (contents_footnotesOf hnote hxs)
  let n : Numbering := ⟨definitionsOf (footnotesOf blocks), 0⟩
  have hnumbered := forall_contents_numberBlocks hp h (n := n)
  have hdefined : AllBodies p (numberBlocks n blocks).2.defined :=
    preserves_numberBlocks (q := fun n => AllBodies p n.defined)
      (fun _ name hn => hn.refer name) (hnotes h) blocks
  refine List.forall_mem_append.2 ⟨fun xs hxs => ?_, fun xs hxs => ?_⟩
  · exact hnumbered xs ((sublist_withoutFootnotes _).subset hxs)
  · obtain ⟨note, hnote, hxs⟩ := List.mem_flatMap.1 hxs
    obtain ⟨i, -, hi⟩ := List.mem_filterMap.1 hnote
    obtain ⟨d, hd, rfl⟩ := Option.map_eq_some_iff.1 hi
    dsimp only at hxs
    -- the body as it has been numbered, or as it was defined
    rcases hbody : List.find? (fun e : Definition => e.key == d.key)
        (definitionsOf (footnotesOf (numberBlocks n blocks).1)) with _ | e
    · rw [hbody] at hxs
      exact hdefined d (List.mem_of_find?_eq_some hd) xs hxs
    · rw [hbody] at hxs
      exact hnotes hnumbered e (List.mem_of_find?_eq_some hbody) xs hxs

/-- All contents of a document have what is read and what numbering keeps up. -/
theorem forall_contents_ofText (hp : Numbers p) (h : ∀ defs t, p (Inline.ofText defs t))
    (source : Text) : ∀ xs ∈ (Document.ofText source).contents, p xs := by
  refine forall_contents_ofBlocks hp ?_
  rw [contentsOf_map]
  exact List.forall_mem_map.2 fun t _ => h _ t

end Documents

end TidyMark.Markdown
