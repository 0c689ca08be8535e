import TidyMark.Proofs.Contents
import TidyMark.Proofs.TameBlocks

/-!
# Documents of tame lines

The blocks that tame lines are read as define no footnotes, so that numbering refers to nothing
and the document ends with its blocks, and when the texts in them are read as inline content there
are no links in it (`watched_ofText`).
-/

namespace TidyMark.Markdown

section Mapping

variable {α β : Type} {strict : Bool} {p : α → Prop} {q : β → Prop} {f : α → β}

mutual

theorem watched_map (hf : ∀ a, p a → q (f a)) :
    ∀ {b : Block α}, b.IsWatched strict p → (b.map f).IsWatched strict q
  | .paragraph a, h | .heading _ a, h => hf a h
  | .quote _, h => watched_mapBlocks hf h
  | .list _ _ _, h => watched_mapItems hf h
  | .fence _ _, h | .indented _, h | .html _, h => h
  | .rule, _ => trivial
  | .table _ _ _, h =>
    ⟨List.forall_mem_map.2 fun a ha => hf a (h.1 a ha), List.forall_mem_map.2 fun row hrow =>
      List.forall_mem_map.2 fun a ha => hf a (h.2 row hrow a ha)⟩
  | .footnote _ _, h => h.elim
  | .descriptions _, h => watched_mapDescriptions hf h

theorem watched_mapBlocks (hf : ∀ a, p a → q (f a)) :
    ∀ {bs : List (Block α)}, AreWatched strict p bs → AreWatched strict q (mapBlocks f bs)
  | [], _ => trivial
  | _ :: _, h => ⟨watched_map hf h.1, watched_mapBlocks hf h.2⟩

theorem watched_mapItems (hf : ∀ a, p a → q (f a)) :
    ∀ {items : List (Item α)}, ItemsAreWatched strict p items →
      ItemsAreWatched strict q (mapItems f items)
  | [], _ => trivial
  | .mk _ :: _, h => ⟨watched_mapBlocks hf h.1, watched_mapItems hf h.2⟩

theorem watched_mapDescriptions (hf : ∀ a, p a → q (f a)) :
    ∀ {items : List (Description α)}, DescriptionsAreWatched strict p items →
      DescriptionsAreWatched strict q (mapDescriptions f items)
  | [], _ => trivial
  | .mk _ term _ :: _, h =>
    ⟨fun b hb => by
      obtain ⟨a, ha, rfl⟩ := Option.map_eq_some_iff.1 hb
      exact hf a (h.1 a ha), watched_mapBlocks hf h.2.1, watched_mapDescriptions hf h.2.2⟩

end

end Mapping

section Numbering

variable {strict : Bool} {n : Numbering}

mutual

/-- Numbering puts no link into inline content. -/
theorem isUnlinked_number (n : Numbering) : ∀ {x : Inline}, x.IsUnlinked strict →
    (x.number n).1.IsUnlinked strict
  | .text _, _ | .softBreak, _ | .lineBreak, _ => trivial
  | .code _, h | .html _, h => h
  | .emphasis _, h | .strong _, h | .strikethrough _, h | .superscript _, h =>
    areUnlinked_number n h
  | .link _ _ _, h | .image _ _ _, h => h.elim
  | .footnoteRef name _ _, h => by
    rw [Inline.number, numberReference]
    split
    · exact h
    · trivial

theorem areUnlinked_number (n : Numbering) : ∀ {xs : List Inline}, AreUnlinked strict xs →
    AreUnlinked strict (numberInlines n xs).1
  | [], _ => trivial
  | _ :: _, h => ⟨isUnlinked_number n h.1, areUnlinked_number _ h.2⟩

end

mutual

theorem watched_number (n : Numbering) : ∀ {b : Block (List Inline)},
    b.IsWatched strict (AreUnlinked strict) → (b.number n).1.IsWatched strict (AreUnlinked strict)
  | .paragraph _, h | .heading _ _, h => areUnlinked_number n h
  | .quote _, h => watched_numberBlocks n h
  | .list _ _ _, h => watched_numberItems n h
  | .fence _ _, h | .indented _, h | .html _, h => h
  | .rule, _ => trivial
  | .table _ _ _, h =>
    ⟨forall_numberEach (fun n _ h => areUnlinked_number n h) h.1, forall_numberEach
      (p := fun row => ∀ xs ∈ row, AreUnlinked strict xs)
      (fun _ _ h => forall_numberEach (fun n _ h => areUnlinked_number n h) h) h.2⟩
  | .footnote _ _, h => h.elim
  | .descriptions _, h => watched_numberDescriptions n h

theorem watched_numberBlocks (n : Numbering) : ∀ {bs : List (Block (List Inline))},
    AreWatched strict (AreUnlinked strict) bs →
      AreWatched strict (AreUnlinked strict) (numberBlocks n bs).1
  | [], _ => trivial
  | _ :: _, h => ⟨watched_number n h.1, watched_numberBlocks _ h.2⟩

theorem watched_numberItems (n : Numbering) : ∀ {items : List (Item (List Inline))},
    ItemsAreWatched strict (AreUnlinked strict) items →
      ItemsAreWatched strict (AreUnlinked strict) (numberItems n items).1
  | [], _ => trivial
  | .mk _ :: _, h => ⟨watched_numberBlocks n h.1, watched_numberItems _ h.2⟩

theorem watched_numberDescriptions (n : Numbering) : ∀ {items : List (Description (List Inline))},
    DescriptionsAreWatched strict (AreUnlinked strict) items →
      DescriptionsAreWatched strict (AreUnlinked strict) (numberDescriptions n items).1
  | [], _ => trivial
  | .mk _ none _ :: _, h =>
    ⟨by simp, watched_numberBlocks _ h.2.1, watched_numberDescriptions _ h.2.2⟩
  | .mk _ (some xs) _ :: _, h =>
    ⟨fun ys hys => by
      cases hys
      exact areUnlinked_number n (h.1 xs rfl), watched_numberBlocks _ h.2.1,
      watched_numberDescriptions _ h.2.2⟩

end

/-- Where nothing is defined nothing is referred to. -/
theorem refer_of_nothing {k : Nat} :
    ∀ n name, n = (⟨[], k⟩ : Numbering) → (n.refer name).2 = ⟨[], k⟩ := by
  rintro _ name rfl
  rfl

theorem numberInlines_of_nothing (k : Nat) (xs : List Inline) :
    (numberInlines ⟨[], k⟩ xs).2 = ⟨[], k⟩ :=
  preserves_numberInlines refer_of_nothing rfl xs

theorem numberBlocks_of_nothing (k : Nat) (bs : List (Block (List Inline))) :
    (numberBlocks ⟨[], k⟩ bs).2 = ⟨[], k⟩ :=
  preserves_numberBlocks refer_of_nothing rfl bs

end Numbering

section Footnotes

variable {α : Type} {strict : Bool} {p : α → Prop}

mutual

theorem footnotes_of_isWatched : ∀ {b : Block α}, b.IsWatched strict p → b.footnotes = []
  | .paragraph _, _ | .heading _ _, _ | .fence _ _, _ | .indented _, _ | .html _, _ | .rule, _
  | .table _ _ _, _ => rfl
  | .quote _, h => footnotesOf_of_areWatched h
  | .list _ _ _, h => footnotesOfItems_of_areWatched h
  | .footnote _ _, h => h.elim
  | .descriptions _, h => footnotesOfDescriptions_of_areWatched h

theorem footnotesOf_of_areWatched : ∀ {bs : List (Block α)}, AreWatched strict p bs →
    footnotesOf bs = []
  | [], _ => rfl
  | _ :: _, h => by
    rw [footnotesOf, footnotes_of_isWatched h.1, footnotesOf_of_areWatched h.2, List.nil_append]

theorem footnotesOfItems_of_areWatched : ∀ {items : List (Item α)},
    ItemsAreWatched strict p items → footnotesOfItems items = []
  | [], _ => rfl
  | .mk _ :: _, h => by
    rw [footnotesOfItems, footnotesOf_of_areWatched h.1, footnotesOfItems_of_areWatched h.2,
      List.nil_append]

theorem footnotesOfDescriptions_of_areWatched : ∀ {items : List (Description α)},
    DescriptionsAreWatched strict p items → footnotesOfDescriptions items = []
  | [], _ => rfl
  | .mk _ _ _ :: _, h => by
    rw [footnotesOfDescriptions, footnotesOf_of_areWatched h.2.1,
      footnotesOfDescriptions_of_areWatched h.2.2, List.nil_append]

end

mutual

theorem watched_withoutFootnotes? : ∀ {b b' : Block α}, b.IsWatched strict p →
    b.withoutFootnotes? = some b' → b'.IsWatched strict p
  | .paragraph _, _, h, rfl | .heading _ _, _, h, rfl | .fence _ _, _, h, rfl
  | .indented _, _, h, rfl | .html _, _, h, rfl | .rule, _, h, rfl | .table _ _ _, _, h, rfl => h
  | .quote _, _, h, rfl => watched_withoutFootnotes h
  | .list _ _ _, _, h, rfl => watched_itemsWithoutFootnotes h
  | .footnote _ _, _, h, _ => h.elim
  | .descriptions _, _, h, rfl => watched_detailsWithoutFootnotes h

theorem watched_withoutFootnotes : ∀ {bs : List (Block α)}, AreWatched strict p bs →
    AreWatched strict p (withoutFootnotes bs)
  | [], _ => trivial
  | b :: _, h => by
    rw [withoutFootnotes]
    split
    · next b' hb => exact ⟨watched_withoutFootnotes? h.1 hb, watched_withoutFootnotes h.2⟩
    · exact watched_withoutFootnotes h.2

theorem watched_itemsWithoutFootnotes : ∀ {items : List (Item α)},
    ItemsAreWatched strict p items → ItemsAreWatched strict p (itemsWithoutFootnotes items)
  | [], _ => trivial
  | .mk _ :: _, h => ⟨watched_withoutFootnotes h.1, watched_itemsWithoutFootnotes h.2⟩

theorem watched_detailsWithoutFootnotes : ∀ {items : List (Description α)},
    DescriptionsAreWatched strict p items →
      DescriptionsAreWatched strict p (detailsWithoutFootnotes items)
  | [], _ => trivial
  | .mk _ _ _ :: _, h =>
    ⟨h.1, watched_withoutFootnotes h.2.1, watched_detailsWithoutFootnotes h.2.2⟩

end

/-- The document of a tame source has no footnotes and, in its blocks, no links. -/
theorem watched_ofText {source : Text} (h : IsTame strict source) :
    AreWatched strict (AreUnlinked strict) (Document.ofText source).body ∧
      (Document.ofText source).notes = [] := by
  obtain ⟨hblocks, hdefs⟩ := watched_readBlocks h
  have hread := watched_mapBlocks (q := AreUnlinked strict)
    (fun t ht => areUnlinked_ofText ht) hblocks
  unfold Document.ofText
  dsimp only
  rw [hdefs]
  generalize mapBlocks (Inline.ofText {}) (readBlocks source).1 = blocks at hread
  unfold Document.ofBlocks
  dsimp only
  rw [footnotesOf_of_areWatched hread, definitionsOf, List.foldl_nil, numberBlocks_of_nothing]
  exact ⟨watched_withoutFootnotes (watched_numberBlocks _ hread), rfl⟩

end Footnotes

end TidyMark.Markdown
