import TidyMark.Proofs.Levels
import TidyMark.Proofs.TameDocuments
import TidyMark.Tidy

/-!
# Tokens without links

The tokens of a document that a watch lets through are of few kinds (`IsPlain`), none of which
begins a link (`beginsLink_of_isTame`). The tokens of each part of the document are a `Passage`:
those behind which a line may not have ended, such as the content of a block, are followed only by
tokens of certain kinds (`mayFollow`).
-/

namespace TidyMark.Token

open Markdown

variable (strict : Bool)

/-- Whether a token may be a child of an `inline` token where no links are. -/
def IsPlainChild (t : Token) : Prop :=
  match t.kind with
  | .leaf .text | .leaf .softBreak | .leaf .hardBreak | .leaf .sup
  | .opening .emphasis | .closing .emphasis | .opening .strong | .closing .strong
  | .opening .deleted | .closing .deleted => True
  | .leaf .code => t.block = false ∧ (strict = true → IsSafe true t.content)
  | .leaf .htmlTag | .leaf .footnoteRef => strict = false
  | _ => False

/-- The constructs that are blocks, or parts of blocks, where no footnotes are. -/
def blockConstructs : List Construct :=
  [.blockquote, .heading, .bulletList, .orderedList, .listItem, .paragraph, .table, .tableHead,
    .tableBody, .tableRow, .headerCell, .dataCell, .descriptionList, .descriptionTerm,
    .descriptionDetails]

/-- Whether a token may stand in a document without links and footnotes. -/
def IsPlain (t : Token) : Prop :=
  match t.kind with
  | .leaf .inline => t.content = plainText t.children ∧ IsMerged t.children ∧
      ∀ c ∈ t.children, c.IsPlainChild strict
  | .leaf .fence => IsTame strict t.content ∧ t.children = []
  | .leaf .code => t.block = true ∧ IsTame strict t.content ∧ t.children = []
  | .leaf .htmlBlock => strict = false ∧ t.children = []
  | .leaf .rule => t.children = []
  | .opening c | .closing c => c ∈ blockConstructs ∧ t.children = []
  | _ => False

/-- Kinds of tokens that a block begins with. -/
def blockStarts : List Kind :=
  [.opening .paragraph, .opening .heading, .opening .blockquote, .opening .bulletList,
    .opening .orderedList, .opening .table, .opening .descriptionList, .leaf .fence, .leaf .code,
    .leaf .htmlBlock, .leaf .rule]

/-- Kinds of tokens that a block ends with. -/
def blockEnds : List Kind :=
  [.closing .paragraph, .closing .heading, .closing .blockquote, .closing .bulletList,
    .closing .orderedList, .closing .table, .closing .descriptionList, .leaf .fence, .leaf .code,
    .leaf .htmlBlock, .leaf .rule]

/-- Whether a token of the second kind may stand directly behind one of the first kind, as far as
the line may not have ended there. -/
def mayFollow (k k' : Kind) : Bool :=
  match k with
  | .leaf .inline =>
    [.closing .paragraph, .closing .heading, .closing .headerCell, .closing .dataCell].contains k'
  | .closing .dataCell => [.opening .dataCell, .closing .tableRow].contains k'
  | .opening .table =>
    [.opening .tableHead, .opening .tableBody, .closing .table].contains k'
  | .closing .paragraph =>
    blockStarts.contains k' || [.closing .blockquote, .closing .listItem, .closing .descriptionTerm,
      .closing .descriptionDetails].contains k'
  | .closing .listItem =>
    [.opening .listItem, .closing .bulletList, .closing .orderedList].contains k'
  | _ => true

/-- Tokens without links that begin and end with tokens of certain kinds and stand one behind the
other as they may. -/
structure Passage (first last : List Kind) (ts : List Token) : Prop where
  plain : ∀ t ∈ ts, t.IsPlain strict
  apart : ts.IsChain fun t u => mayFollow t.kind u.kind = true
  begins : ∀ t ∈ ts.head?, t.kind ∈ first
  ends : ∀ t ∈ ts.getLast?, t.kind ∈ last

section Children

variable {strict} {after : List Token}

theorem plainChildren_consText {t : Text} (h : ∀ c ∈ after, c.IsPlainChild strict) :
    ∀ c ∈ consText t after, c.IsPlainChild strict := by
  unfold consText
  split
  · next next rest =>
    obtain ⟨hnext, hrest⟩ := List.forall_mem_cons.1 h
    split_ifs with hk
    · exact List.forall_mem_cons.2 ⟨by simp [IsPlainChild, eq_of_beq hk], hrest⟩
    · exact List.forall_mem_cons.2 ⟨trivial, h⟩
  · simp [IsPlainChild]

mutual

theorem plainChildren_ofInline : ∀ {after : List Token} {x : Inline},
    (∀ c ∈ after, c.IsPlainChild strict) → x.IsUnlinked strict →
      ∀ c ∈ ofInline after x, c.IsPlainChild strict
  | _, .text _, h, _ => plainChildren_consText h
  | _, .softBreak, h, _ | _, .lineBreak, h, _ | _, .superscript _, h, _ =>
    List.forall_mem_cons.2 ⟨trivial, h⟩
  | _, .code _, h, hx => List.forall_mem_cons.2 ⟨⟨rfl, hx⟩, h⟩
  | _, .html _, h, hx | _, .footnoteRef _ _ _, h, hx => List.forall_mem_cons.2 ⟨hx, h⟩
  | _, .emphasis _, h, hx | _, .strong _, h, hx | _, .strikethrough _, h, hx =>
    List.forall_mem_cons.2
      ⟨trivial, plainChildren_ofInlines (List.forall_mem_cons.2 ⟨trivial, h⟩) hx⟩
  | _, .link _ _ _, _, hx | _, .image _ _ _, _, hx => hx.elim

theorem plainChildren_ofInlines : ∀ {after : List Token} {xs : List Inline},
    (∀ c ∈ after, c.IsPlainChild strict) → AreUnlinked strict xs →
      ∀ c ∈ ofInlines after xs, c.IsPlainChild strict
  | _, [], h, _ => h
  | _, _ :: _, h, hxs => by
    rw [ofInlines]
    exact plainChildren_ofInline (plainChildren_ofInlines h hxs.2) hxs.1

end

end Children

namespace Passage

variable {strict} {first first' last last' : List Kind} {ts us : List Token}

theorem nil : Passage strict first last [] :=
  ⟨by simp, .nil, by simp, by simp⟩

theorem leaf {t : Token} {l : Leaf} (hk : t.kind = .leaf l) (h : t.IsPlain strict)
    (hfirst : .leaf l ∈ first) (hlast : .leaf l ∈ last) : Passage strict first last [t] :=
  ⟨by simpa using h, .singleton t, by simpa [hk] using hfirst, by simpa [hk] using hlast⟩

/-- Passages of one sort may stand one behind the other. -/
theorem append (hfollow : ∀ k ∈ last, ∀ k' ∈ first, mayFollow k k' = true)
    (ht : Passage strict first last ts) (hu : Passage strict first last us) :
    Passage strict first last (ts ++ us) where
  plain t h := (List.mem_append.1 h).elim (ht.plain t) (hu.plain t)
  apart := ht.apart.append hu.apart fun t htl u hul =>
    hfollow _ (ht.ends t htl) _ (hu.begins u hul)
  begins t h := by
    rw [List.head?_append] at h
    rcases ts with _ | ⟨t', ts⟩
    · exact hu.begins t h
    · exact ht.begins t h
  ends t h := by
    rw [List.getLast?_append] at h
    rcases hl : us.getLast? with _ | u <;> rw [hl] at h
    · exact ht.ends t h
    · cases h
      exact hu.ends t hl

theorem flatMap {α : Type} {f : α → List Token} {xs : List α}
    (hfollow : ∀ k ∈ last, ∀ k' ∈ first, mayFollow k k' = true)
    (h : ∀ x ∈ xs, Passage strict first last (f x)) : Passage strict first last (xs.flatMap f) := by
  induction xs with
  | nil => exact nil
  | cons x xs ih =>
    exact append hfollow (h x List.mem_cons_self) (ih fun y hy => h y (List.mem_cons_of_mem _ hy))

/-- A passage between the brackets of a construct. -/
theorem bracketed {opening closing : Token} {c : Construct}
    (hopen : opening.kind = .opening c ∧ opening.children = [])
    (hclose : closing.kind = .closing c ∧ closing.children = [])
    (h : Passage strict first' last' ts)
    (hc : c ∈ blockConstructs)
    (hbegin : ∀ k ∈ .closing c :: first', mayFollow (.opening c) k = true)
    (hend : ∀ k ∈ last', mayFollow k (.closing c) = true) (hfirst : .opening c ∈ first)
    (hlast : .closing c ∈ last) : Passage strict first last (opening :: (ts ++ [closing])) where
  plain := by
    simp only [List.mem_cons, List.mem_append, List.not_mem_nil, or_false]
    rintro t (rfl | ht | rfl)
    · simpa only [IsPlain, hopen] using ⟨hc, trivial⟩
    · exact h.plain t ht
    · simpa only [IsPlain, hclose] using ⟨hc, trivial⟩
  apart := by
    have hinside : (ts ++ [closing]).IsChain fun t u => mayFollow t.kind u.kind = true :=
      h.apart.append (.singleton closing) fun t ht u hu => by
        obtain rfl : closing = u := by simpa using hu
        exact hclose.1 ▸ hend _ (h.ends t ht)
    refine List.isChain_cons.2 ⟨fun u hu => ?_, hinside⟩
    rw [hopen.1]
    rcases ts with _ | ⟨t, ts⟩
    · obtain rfl : closing = u := by simpa using hu
      exact hclose.1 ▸ hbegin _ List.mem_cons_self
    · obtain rfl : t = u := by simpa using hu
      exact hbegin _ (List.mem_cons_of_mem _ (h.begins t rfl))
  begins t ht := by
    obtain rfl : opening = t := by simpa using ht
    exact hopen.1 ▸ hfirst
  ends t ht := by
    rw [← List.cons_append, List.getLast?_concat] at ht
    cases ht
    exact hclose.1 ▸ hlast

end Passage

section Blocks

variable {strict} (depth : Nat)

theorem passage_inlineAt {xs : List Inline} (h : AreUnlinked strict xs) :
    Passage strict [.leaf .inline] [.leaf .inline] (inlineAt depth xs) :=
  .leaf rfl ⟨rfl, (isOrdered_ofInlines xs).merged, plainChildren_ofInlines (by simp) h⟩
    List.mem_cons_self List.mem_cons_self

theorem passage_paragraphAt (tight : Bool) {xs : List Inline} (h : AreUnlinked strict xs) :
    Passage strict blockStarts blockEnds (paragraphAt depth tight xs) :=
  .bracketed ⟨rfl, rfl⟩ ⟨rfl, rfl⟩ (passage_inlineAt _ h) (by decide) (by decide) (by decide) (by decide)
    (by decide)

theorem passage_rowAt {cell : Construct} (hcell : cell = .headerCell ∨ cell = .dataCell)
    (aligns : List (Option Align)) {row : List (List Inline)}
    (h : ∀ xs ∈ row, AreUnlinked strict xs) :
    Passage strict [.opening .tableRow] [.closing .tableRow] (rowAt depth cell aligns row) := by
  have hcells : Passage strict [.opening cell] [.closing cell]
      (row.zipIdx.flatMap fun x => cellAt (depth + 1) cell (aligns[x.2]?.join) x.1) := by
    refine .flatMap (by rcases hcell with rfl | rfl <;> decide) fun x hx => ?_
    have hxs : Passage strict [.leaf .inline] [.leaf .inline] (inlineAt (depth + 2) x.1) :=
      passage_inlineAt _ (h x.1 (List.fst_mem_of_mem_zipIdx hx))
    rcases hcell with rfl | rfl <;>
      exact .bracketed ⟨rfl, rfl⟩ ⟨rfl, rfl⟩ hxs (by decide) (by decide) (by decide) (by decide) (by decide)
  rcases hcell with rfl | rfl <;>
    exact .bracketed ⟨rfl, rfl⟩ ⟨rfl, rfl⟩ hcells (by decide) (by decide) (by decide) (by decide) (by decide)

theorem passage_tableAt (aligns : List (Option Align)) {header : List (List Inline)}
    {rows : List (List (List Inline))} (hheader : ∀ xs ∈ header, AreUnlinked strict xs)
    (hrows : ∀ row ∈ rows, ∀ xs ∈ row, AreUnlinked strict xs) :
    Passage strict blockStarts blockEnds (tableAt depth aligns header rows) := by
  have hrowsAt : Passage strict [.opening .tableRow] [.closing .tableRow]
      (rows.flatMap (rowAt (depth + 2) .dataCell aligns)) :=
    .flatMap (by decide) fun row hrow => passage_rowAt _ (.inr rfl) aligns (hrows row hrow)
  have hhead : Passage strict [.opening .tableHead, .opening .tableBody]
      [.closing .tableHead, .closing .tableBody]
      (enclose (depth + 1) .tableHead {} (rowAt (depth + 2) .headerCell aligns header)) :=
    .bracketed ⟨rfl, rfl⟩ ⟨rfl, rfl⟩ (passage_rowAt _ (.inl rfl) aligns hheader) (by decide) (by decide)
      (by decide) (by decide) (by decide)
  refine .bracketed ⟨rfl, rfl⟩ ⟨rfl, rfl⟩ (.append (by decide) hhead ?_) (by decide) (by decide) (by decide)
    (by decide) (by decide)
  split_ifs
  · exact .nil
  · exact .bracketed ⟨rfl, rfl⟩ ⟨rfl, rfl⟩ hrowsAt (by decide) (by decide) (by decide) (by decide) (by decide)

theorem follow_blocks : ∀ k ∈ blockEnds, ∀ k' ∈ blockStarts, mayFollow k k' = true := by
  decide

mutual

theorem passage_ofBlock (depth : Nat) (tight : Bool) : ∀ {b : Block (List Inline)},
    b.IsWatched strict (AreUnlinked strict) →
      Passage strict blockStarts blockEnds (ofBlock depth tight b)
  | .paragraph _, h => passage_paragraphAt depth tight h
  | .heading _ _, h => .bracketed ⟨rfl, rfl⟩ ⟨rfl, rfl⟩ (passage_inlineAt _ h) (by decide) (by decide) (by decide)
      (by decide) (by decide)
  | .quote _, h => .bracketed ⟨rfl, rfl⟩ ⟨rfl, rfl⟩ (passage_ofBlocks _ false h) (by decide) (by decide)
      (by decide) (by decide) (by decide)
  | .list .bullet tight _, h => .bracketed ⟨rfl, rfl⟩ ⟨rfl, rfl⟩ (passage_ofItems _ tight h) (by decide)
      (by decide) (by decide) (by decide) (by decide)
  | .list (.ordered _) tight _, h => .bracketed (c := .orderedList) ⟨rfl, rfl⟩ ⟨rfl, rfl⟩ (passage_ofItems _ tight h) (by decide)
      (by decide) (by decide) (by decide) (by decide)
  | .fence _ _, h => .leaf rfl ⟨h, rfl⟩ (by decide) (by decide)
  | .indented _, h => .leaf rfl ⟨rfl, h, rfl⟩ (by decide) (by decide)
  | .html _, h => .leaf rfl ⟨h, rfl⟩ (by decide) (by decide)
  | .rule, _ => .leaf rfl rfl (by decide) (by decide)
  | .table aligns _ _, h => passage_tableAt depth aligns h.1 h.2
  | .footnote _ _, h => h.elim
  | .descriptions _, h => .bracketed ⟨rfl, rfl⟩ ⟨rfl, rfl⟩ (passage_ofDescriptions _ h) (by decide)
      (by decide) (by decide) (by decide) (by decide)

theorem passage_ofBlocks (depth : Nat) (tight : Bool) : ∀ {bs : List (Block (List Inline))},
    AreWatched strict (AreUnlinked strict) bs →
      Passage strict blockStarts blockEnds (ofBlocks depth tight bs)
  | [], _ => .nil
  | _ :: _, h =>
    .append follow_blocks (passage_ofBlock depth tight h.1) (passage_ofBlocks depth tight h.2)

theorem passage_ofItems (depth : Nat) (tight : Bool) : ∀ {items : List (Item (List Inline))},
    ItemsAreWatched strict (AreUnlinked strict) items →
      Passage strict [.opening .listItem] [.closing .listItem] (ofItems depth tight items)
  | [], _ => .nil
  | .mk _ :: _, h =>
    .append (by decide) (.bracketed ⟨rfl, rfl⟩ ⟨rfl, rfl⟩ (passage_ofBlocks _ tight h.1) (by decide) (by decide)
      (by decide) (by decide) (by decide)) (passage_ofItems depth tight h.2)

theorem passage_ofDescriptions (depth : Nat) : ∀ {items : List (Description (List Inline))},
    DescriptionsAreWatched strict (AreUnlinked strict) items →
      Passage strict [.opening .descriptionTerm, .opening .descriptionDetails]
        [.closing .descriptionTerm, .closing .descriptionDetails] (ofDescriptions depth items)
  | [], _ => .nil
  | .mk _ none _ :: _, h =>
    .append (by decide) (.bracketed ⟨rfl, rfl⟩ ⟨rfl, rfl⟩ (passage_ofBlocks _ true h.2.1) (by decide) (by decide)
      (by decide) (by decide) (by decide)) (passage_ofDescriptions depth h.2.2)
  | .mk _ (some xs) _ :: _, h =>
    .append (by decide)
      (.append (by decide)
        (.bracketed ⟨rfl, rfl⟩ ⟨rfl, rfl⟩ (passage_paragraphAt _ true (h.1 xs rfl)) (by decide) (by decide)
          (by decide) (by decide) (by decide))
        (.bracketed ⟨rfl, rfl⟩ ⟨rfl, rfl⟩ (passage_ofBlocks _ true h.2.1) (by decide) (by decide) (by decide)
          (by decide) (by decide)))
      (passage_ofDescriptions depth h.2.2)

end

end Blocks

end TidyMark.Token

namespace TidyMark

open Token

/-- The tokens of a tame source are those of blocks without links. -/
theorem passage_tokenize {strict : Bool} {source : Text} (h : IsTame strict source) :
    Passage strict blockStarts blockEnds (tokenize source) := by
  obtain ⟨hbody, hnotes⟩ := Markdown.watched_ofText h
  have hpassage := passage_ofBlocks 0 false hbody
  rw [tokenize, ofDocument, hnotes, ofNotes]
  simpa using hpassage

section Links

variable {strict : Bool} {t : Token}

/-- Whether a link begins in a stream, at a token of it or at a child of one. -/
def Token.beginsLink (tokens : List Token) : Bool :=
  tokens.any fun t => t.kind == .opening .link || t.children.any (·.kind == .opening .link)

theorem kind_ne_of_isPlainChild (h : t.IsPlainChild strict) : t.kind ≠ .opening .link := by
  intro hk
  rw [IsPlainChild, hk] at h
  exact h

theorem kind_ne_of_isPlain (h : t.IsPlain strict) : t.kind ≠ .opening .link := by
  intro hk
  rw [IsPlain, hk] at h
  exact absurd h.1 (by decide)

theorem children_of_isPlain (h : t.IsPlain strict) : ∀ c ∈ t.children, c.IsPlainChild strict := by
  unfold IsPlain at h
  split at h
  · exact h.2.2
  all_goals grind

/-- What a watch lets through has no links when it is read. -/
theorem beginsLink_of_isTame {source : Text} (h : IsTame strict source) :
    beginsLink (tokenize source) = false := by
  refine List.any_eq_false.2 fun t ht => ?_
  have hplain := (passage_tokenize h).plain t ht
  simp only [Bool.or_eq_true, beq_iff_eq, not_or, List.any_eq_true, not_exists, not_and]
  exact ⟨kind_ne_of_isPlain hplain, fun c hc =>
    kind_ne_of_isPlainChild (children_of_isPlain hplain c hc)⟩

end Links

end TidyMark
