import TidyMark.Proofs.Contents
import TidyMark.Proofs.Levels

/-!
# The kinds of inline content

Only `inline` tokens have children, and these are the tokens of inline content that stands in the
document, perhaps with an anchor behind them: what all tokens of its contents have, the children of
all its tokens have (`bears_ofDocument`). So whatever the document is, the children are runs of text
and marks around them, never blocks or `inline` tokens (`holdsInline_ofDocument`), and the content
of an `inline` token is their visible text (`content_eq_plainText`).
-/

namespace TidyMark

open Markdown

/-- Whether a token of this kind may stand in inline content. -/
def Kind.isInline : Kind → Bool
  | .opening c | .closing c => [Construct.emphasis, .strong, .deleted, .link].contains c
  | .leaf l =>
    [Leaf.text, .softBreak, .hardBreak, .code, .htmlTag, .sup, .image, .footnoteRef,
      .footnoteAnchor].contains l
  | .unknown _ => false

/-- The kinds of the tokens that inline content comes to. -/
def contentKinds : List Kind :=
  [.opening .emphasis, .closing .emphasis, .opening .strong, .closing .strong, .opening .deleted,
    .closing .deleted, .opening .link, .closing .link, .leaf .text, .leaf .softBreak,
    .leaf .hardBreak, .leaf .code, .leaf .htmlTag, .leaf .sup, .leaf .image, .leaf .footnoteRef]

theorem Kind.ne_of_isInline {k : Kind} (h : k.isInline = true) : k ≠ .leaf .inline := by
  rintro rfl
  cases h

namespace Token

/-- Whether all children of a token have a property. -/
def Bears (q : Token → Prop) (t : Token) : Prop :=
  ∀ c ∈ t.children, q c

/-- Whether all tokens of inline content have a property. -/
def AllTokens (q : Token → Prop) (xs : List Inline) : Prop :=
  ∀ c ∈ ofInlines [] xs, q c

/-- Whether the children of a token, if there are any, are inline content. -/
def HoldsInline (t : Token) : Prop :=
  ∀ c ∈ t.children, c.kind.isInline = true

section Children

variable {after : List Token}

/-- A token of inline content opens a construct, closes the innermost one or leaves all as they
are. -/
theorem isBracketed_cases {level : Nat → Option Nat} {opened : List Construct} {t : Token}
    (ht : t.kind.isInline = true) (h : isBracketed level opened (t :: after) = true) :
    (∃ c, t.kind = .opening c ∧ isBracketed level (c :: opened) after = true) ∨
    (∃ c outer, t.kind = .closing c ∧ opened = c :: outer ∧ isBracketed level outer after = true) ∨
    (∃ l, t.kind = .leaf l ∧ isBracketed level opened after = true) := by
  rcases hk : t.kind with c | c | l | name
  · rw [isBracketed_opening hk, Bool.and_eq_true] at h
    exact .inl ⟨c, rfl, h.2⟩
  · cases opened with
    | nil => simp [isBracketed, hk] at h
    | cons d outer =>
      simp only [isBracketed, hk, Bool.and_eq_true, beq_iff_eq] at h
      obtain ⟨⟨rfl, -⟩, hrest⟩ := h
      exact .inr (.inl ⟨c, outer, rfl, rfl, hrest⟩)
  · rw [isBracketed_leaf hk, Bool.and_eq_true] at h
    exact .inr (.inr ⟨l, rfl, h.2⟩)
  · rw [hk] at ht
    cases ht

/-- What holds of the kinds of inline content holds of each token of a text before others. -/
theorem forall_kind_consText {p : Kind → Prop} (hp : p (.leaf .text)) (t : Text)
    (h : ∀ c ∈ after, p c.kind) : ∀ c ∈ consText t after, p c.kind := by
  unfold consText
  split
  · next next rest =>
    obtain ⟨hnext, hrest⟩ := List.forall_mem_cons.1 h
    split_ifs
    · exact List.forall_mem_cons.2 ⟨hnext, hrest⟩
    · exact List.forall_mem_cons.2 ⟨hp, h⟩
  · exact List.forall_mem_cons.2 ⟨hp, nofun⟩

mutual

theorem forall_kind_ofInline {p : Kind → Prop} (hp : ∀ k ∈ contentKinds, p k)
    {after : List Token} (h : ∀ c ∈ after, p c.kind) : ∀ x : Inline,
      ∀ c ∈ ofInline after x, p c.kind
  | .text t => forall_kind_consText (hp _ (by decide)) t h
  | .softBreak | .lineBreak | .code _ | .html _ | .superscript _ | .image _ _ _
  | .footnoteRef _ _ _ => List.forall_mem_cons.2 ⟨hp _ (by simp [contentKinds, ofKind]), h⟩
  | .emphasis xs | .strong xs | .strikethrough xs | .link _ _ xs =>
    List.forall_mem_cons.2 ⟨hp _ (by simp [contentKinds, ofKind]),
      forall_kind_ofInlines hp
        (List.forall_mem_cons.2 ⟨hp _ (by simp [contentKinds, ofKind]), h⟩) xs⟩

theorem forall_kind_ofInlines {p : Kind → Prop} (hp : ∀ k ∈ contentKinds, p k)
    {after : List Token} (h : ∀ c ∈ after, p c.kind) : ∀ xs : List Inline,
      ∀ c ∈ ofInlines after xs, p c.kind
  | [] => h
  | x :: xs => by
    rw [ofInlines]
    exact forall_kind_ofInline hp (forall_kind_ofInlines hp h xs) x

end

theorem isInline_ofInlines (h : ∀ c ∈ after, c.kind.isInline = true) (xs : List Inline) :
    ∀ c ∈ ofInlines after xs, c.kind.isInline = true :=
  forall_kind_ofInlines (p := fun k => k.isInline = true) (by decide) h xs

end Children

/-- What has no children that could be inline content. -/
def IsBare (t : Token) : Prop :=
  t.kind ≠ .leaf .inline ∧ t.children = []

/-- Whether all tokens of a document have `p` where all its contents have `q`. -/
structure Lifts (q : List Inline → Prop) (p : Token → Prop) : Prop where
  childless : ∀ t : Token, t.IsBare → p t
  content : ∀ depth xs, q xs → p (leafAt depth (inline (ofInlines [] xs)))
  anchored : ∀ (id : Nat) (t : Token), p t →
    p { t with children := t.children ++ [{ kind := .leaf .footnoteAnchor, id }] }

section Blocks

variable {q : List Inline → Prop} {p : Token → Prop} {ts : List Token}

/-- The brackets of a construct have no children. -/
theorem Lifts.bracketed (hp : Lifts q p) {opening closing : Token} (hopening : opening.IsBare)
    (hclosing : closing.IsBare) (ht : ∀ t ∈ ts, p t) :
    ∀ t ∈ opening :: (ts ++ [closing]), p t :=
  List.forall_mem_cons.2 ⟨hp.childless _ hopening, List.forall_mem_append.2
    ⟨ht, List.forall_mem_singleton.2 (hp.childless _ hclosing)⟩⟩

theorem Lifts.forall_leaf (hp : Lifts q p) {t : Token} (h : t.IsBare) : ∀ u ∈ [t], p u :=
  List.forall_mem_singleton.2 (hp.childless t h)

theorem Lifts.forall_inlineAt (hp : Lifts q p) (depth : Nat) {xs : List Inline} (h : q xs) :
    ∀ t ∈ inlineAt depth xs, p t :=
  List.forall_mem_singleton.2 (hp.content depth xs h)

theorem Lifts.forall_rowAt (hp : Lifts q p) (depth : Nat) (cell : Construct)
    (aligns : List (Option Align)) {row : List (List Inline)} (h : ∀ xs ∈ row, q xs) :
    ∀ t ∈ rowAt depth cell aligns row, p t :=
  hp.bracketed ⟨nofun, rfl⟩ ⟨nofun, rfl⟩ <| List.forall_mem_flatMap.2 fun _ hx =>
    hp.bracketed ⟨nofun, rfl⟩ ⟨nofun, rfl⟩
      (hp.forall_inlineAt _ (h _ (List.fst_mem_of_mem_zipIdx hx)))

theorem Lifts.forall_tableAt (hp : Lifts q p) (depth : Nat) (aligns : List (Option Align))
    {header : List (List Inline)} {rows : List (List (List Inline))} (hheader : ∀ xs ∈ header, q xs)
    (hrows : ∀ row ∈ rows, ∀ xs ∈ row, q xs) : ∀ t ∈ tableAt depth aligns header rows, p t := by
  refine hp.bracketed ⟨nofun, rfl⟩ ⟨nofun, rfl⟩ (List.forall_mem_append.2 ⟨?_, ?_⟩)
  · exact hp.bracketed ⟨nofun, rfl⟩ ⟨nofun, rfl⟩ (hp.forall_rowAt _ _ aligns hheader)
  · split_ifs
    · exact nofun
    · exact hp.bracketed ⟨nofun, rfl⟩ ⟨nofun, rfl⟩
        (List.forall_mem_flatMap.2 fun row hrow => hp.forall_rowAt _ _ aligns (hrows row hrow))

mutual

theorem Lifts.forall_ofBlock (hp : Lifts q p) (depth : Nat) (tight : Bool) :
    ∀ {b : Block (List Inline)}, (∀ xs ∈ b.contents, q xs) → ∀ t ∈ ofBlock depth tight b, p t
  | .paragraph xs, h | .heading _ xs, h =>
    hp.bracketed ⟨nofun, rfl⟩ ⟨nofun, rfl⟩
      (hp.forall_inlineAt _ (h xs (List.mem_singleton_self xs)))
  | .quote _, h => hp.bracketed ⟨nofun, rfl⟩ ⟨nofun, rfl⟩ (hp.forall_ofBlocks _ _ h)
  | .list _ tight _, h => hp.bracketed ⟨nofun, rfl⟩ ⟨nofun, rfl⟩ (hp.forall_ofItems _ tight h)
  | .fence _ _, _ | .indented _, _ | .html _, _ | .rule, _ => hp.forall_leaf ⟨nofun, rfl⟩
  | .table aligns _ _, h =>
    have hparts := List.forall_mem_append.1 h
    hp.forall_tableAt depth aligns hparts.1 fun _ hrow _ hxs =>
      hparts.2 _ (List.mem_flatten.2 ⟨_, hrow, hxs⟩)
  | .footnote _ _, _ => nofun
  | .descriptions _, h => hp.bracketed ⟨nofun, rfl⟩ ⟨nofun, rfl⟩ (hp.forall_ofDescriptions _ h)

theorem Lifts.forall_ofBlocks (hp : Lifts q p) (depth : Nat) (tight : Bool) :
    ∀ {bs : List (Block (List Inline))}, (∀ xs ∈ contentsOf bs, q xs) →
      ∀ t ∈ ofBlocks depth tight bs, p t
  | [], _ => nofun
  | _ :: _, h =>
    have hparts := List.forall_mem_append.1 h
    List.forall_mem_append.2
      ⟨hp.forall_ofBlock depth tight hparts.1, hp.forall_ofBlocks depth tight hparts.2⟩

theorem Lifts.forall_ofItems (hp : Lifts q p) (depth : Nat) (tight : Bool) :
    ∀ {items : List (Item (List Inline))}, (∀ xs ∈ contentsOfItems items, q xs) →
      ∀ t ∈ ofItems depth tight items, p t
  | [], _ => nofun
  | .mk _ :: _, h =>
    have hparts := List.forall_mem_append.1 h
    List.forall_mem_append.2
      ⟨hp.bracketed ⟨nofun, rfl⟩ ⟨nofun, rfl⟩ (hp.forall_ofBlocks _ tight hparts.1),
        hp.forall_ofItems depth tight hparts.2⟩

theorem Lifts.forall_ofDescriptions (hp : Lifts q p) (depth : Nat) :
    ∀ {items : List (Description (List Inline))}, (∀ xs ∈ contentsOfDescriptions items, q xs) →
      ∀ t ∈ ofDescriptions depth items, p t
  | [], _ => nofun
  | .mk _ term details :: rest, h => by
    obtain ⟨hparts, hrest⟩ := List.forall_mem_append.1 h
    obtain ⟨hterm, hdetails⟩ := List.forall_mem_append.1 hparts
    refine List.forall_mem_append.2
      ⟨List.forall_mem_append.2 ⟨?_, ?_⟩, hp.forall_ofDescriptions depth hrest⟩
    · cases term with
      | none => exact nofun
      | some xs =>
        exact hp.bracketed ⟨nofun, rfl⟩ ⟨nofun, rfl⟩ (hp.bracketed ⟨nofun, rfl⟩ ⟨nofun, rfl⟩
          (hp.forall_inlineAt _ (hterm xs (List.mem_singleton_self xs))))
    · exact hp.bracketed ⟨nofun, rfl⟩ ⟨nofun, rfl⟩ (hp.forall_ofBlocks _ true hdetails)

end

end Blocks

section Footnotes

variable {q : List Inline → Prop} {p : Token → Prop}

theorem Lifts.forall_withAnchor (hp : Lifts q p) (depth id : Nat) {body : List Token}
    (h : ∀ t ∈ body, p t) : ∀ t ∈ withAnchor depth id body, p t := by
  unfold withAnchor
  dsimp only
  split
  · next reversed hr =>
    obtain ⟨before, t, after, -, hts, rfl, -⟩ := exists_of_anchorFirst? hr
    have hbody : ∀ u ∈ before ++ t :: after, p u := fun u hu =>
      h u (List.mem_reverse.1 (hts ▸ hu))
    obtain ⟨hbefore, hrest⟩ := List.forall_mem_append.1 hbody
    obtain ⟨ht, hafter⟩ := List.forall_mem_cons.1 hrest
    intro u hu
    rw [List.mem_reverse] at hu
    exact List.forall_mem_append.2
      ⟨hbefore, List.forall_mem_cons.2 ⟨hp.anchored id t ht, hafter⟩⟩ u hu
  · exact List.forall_mem_append.2 ⟨h, hp.forall_leaf ⟨nofun, rfl⟩⟩

theorem Lifts.forall_ofNotes (hp : Lifts q p) {notes : List Note}
    (h : ∀ note ∈ notes, ∀ xs ∈ contentsOf note.body, q xs) : ∀ t ∈ ofNotes notes, p t := by
  unfold ofNotes
  split_ifs
  · exact nofun
  · exact hp.bracketed ⟨nofun, rfl⟩ ⟨nofun, rfl⟩ <| List.forall_mem_flatMap.2 fun x hx =>
      hp.bracketed ⟨nofun, rfl⟩ ⟨nofun, rfl⟩ (hp.forall_withAnchor _ x.2
        (hp.forall_ofBlocks _ true (h x.1 (List.fst_mem_of_mem_zipIdx hx))))

theorem Lifts.forall_ofDocument (hp : Lifts q p) {d : Document} (h : ∀ xs ∈ d.contents, q xs) :
    ∀ t ∈ ofDocument d, p t := by
  obtain ⟨hbody, hnotes⟩ := List.forall_mem_append.1 h
  exact List.forall_mem_append.2 ⟨hp.forall_ofBlocks 0 false hbody,
    hp.forall_ofNotes fun note hnote xs hxs => hnotes xs (List.mem_flatMap.2 ⟨note, hnote, hxs⟩)⟩

/-- What the tokens of all contents of a document have, and anchors, all children have. -/
theorem bears_ofDocument {q : Token → Prop}
    (hanchor : ∀ id, q { kind := .leaf .footnoteAnchor, id }) {d : Document}
    (h : ∀ xs ∈ d.contents, AllTokens q xs) : ∀ t ∈ ofDocument d, t.Bears q := by
  have hbears : Lifts (AllTokens q) (Bears q) :=
    { childless := fun t ht => by simp [Bears, ht.2]
      content := fun _ _ hxs => hxs
      anchored := fun id _ ht =>
        List.forall_mem_append.2 ⟨ht, List.forall_mem_singleton.2 (hanchor id)⟩ }
  exact hbears.forall_ofDocument h

theorem holdsInline_ofDocument (d : Document) : ∀ t ∈ ofDocument d, t.HoldsInline :=
  bears_ofDocument (q := fun c => c.kind.isInline = true) (fun _ => rfl) fun xs _ =>
    @isInline_ofInlines [] nofun xs

/-- The content of an `inline` token is the visible text of its children, also where an anchor
stands behind them. -/
theorem content_eq_plainText (d : Document) : ∀ t ∈ ofDocument d, t.kind = .leaf .inline →
    t.content = plainText t.children := by
  have hcontent : Lifts (fun _ => True)
      fun t => t.kind = .leaf .inline → t.content = plainText t.children :=
    { childless := fun _ ht hk => absurd hk ht.1
      content := fun _ _ _ _ => rfl
      anchored := fun id t ht hk => by simpa [plainText, plain] using ht hk }
  exact hcontent.forall_ofDocument fun _ _ => trivial

end Footnotes

end Token

end TidyMark
