import TidyMark.Proofs.InlineKinds

/-!
# Anchors of footnotes

The footnotes of a document stand in one block at the end of its stream, in order, each between
brackets with its number and with one anchor in it (`ofDocument_eq_append_noteBlock`). Blocks have
nothing in them that belongs to a footnote (`noteParts_ofBlocks`), also not as a child of an
`inline` token, so there is no other anchor, and a footnote does not lose its own to a neighbour:
only the tokens of its body are searched for a place (`isAnchored_withAnchor`).
-/

namespace TidyMark.Token

open Markdown

/-- The kinds of the tokens that footnotes add to a document. -/
def noteKinds : List Kind :=
  [.opening .footnoteBlock, .closing .footnoteBlock, .opening .footnote, .closing .footnote,
    .leaf .footnoteAnchor]

/-- The brackets and anchors of footnotes among tokens and their children, in order. -/
def noteParts (ts : List Token) : List Token :=
  (ts.flatMap fun t => t :: t.children).filter fun t => noteKinds.contains t.kind

/-- Whether these are the tokens of a body with the anchor of a footnote put in: as the last child
of the last `inline` token, or behind all tokens if none of them is one. -/
structure IsAnchored (level id : Nat) (body inside : List Token) : Prop where
  single : ∃ anchor, noteParts inside = [anchor] ∧ anchor.kind = .leaf .footnoteAnchor ∧
    anchor.id = id
  place : (∃ before t after, body = before ++ t :: after ∧ t.kind = .leaf .inline ∧
      (∀ u ∈ after, u.kind ≠ .leaf .inline) ∧
      inside = before ++ { t with
        children := t.children ++ [{ kind := .leaf .footnoteAnchor, id }] } :: after) ∨
    (∀ t ∈ body, t.kind ≠ .leaf .inline) ∧
      inside = body ++ [{ kind := .leaf .footnoteAnchor, id, level := some level }]

/-- A block of `n` footnotes, numbered from zero, with these tokens in them. -/
def noteBlock (n : Nat) (inside : Nat → List Token) : List Token :=
  { kind := .opening .footnoteBlock, level := some 0 } ::
    ((List.range n).flatMap (fun id =>
        { kind := .opening .footnote, id, level := some 1 } ::
          (inside id ++ [{ kind := .closing .footnote, id, level := some 1 }])) ++
      [{ kind := .closing .footnoteBlock, level := some 0 }])

section Parts

variable {ts us : List Token}

theorem noteParts_append (ts us : List Token) :
    noteParts (ts ++ us) = noteParts ts ++ noteParts us := by
  rw [noteParts, List.flatMap_append, List.filter_append]
  rfl

theorem noteParts_cons (t : Token) (ts : List Token) :
    noteParts (t :: ts) = noteParts [t] ++ noteParts ts :=
  noteParts_append [t] ts

theorem noteParts_single {t : Token} (hk : t.kind ∉ noteKinds) :
    noteParts [t] = t.children.filter fun c => noteKinds.contains c.kind := by
  rw [noteParts, List.flatMap_singleton, List.filter_cons_of_neg (by simpa using hk)]

theorem noteParts_leaf {t : Token} (hk : t.kind ∉ noteKinds) (h : t.children = []) :
    noteParts [t] = [] := by
  rw [noteParts_single hk, h]
  rfl

theorem noteParts_flatMap {α : Type} {f : α → List Token} {as : List α}
    (h : ∀ a ∈ as, noteParts (f a) = []) : noteParts (as.flatMap f) = [] := by
  induction as with
  | nil => rfl
  | cons a as ih =>
    obtain ⟨ha, has⟩ := List.forall_mem_cons.1 h
    rw [List.flatMap_cons, noteParts_append, ha, ih has, List.append_nil]

/-- Brackets that are not those of a footnote add nothing. -/
theorem noteParts_bracketed {opening closing : Token}
    (hopen : opening.kind ∉ noteKinds ∧ opening.children = [])
    (hclose : closing.kind ∉ noteKinds ∧ closing.children = []) (h : noteParts ts = []) :
    noteParts (opening :: (ts ++ [closing])) = [] := by
  rw [noteParts_cons, noteParts_append, noteParts_leaf hopen.1 hopen.2,
    noteParts_leaf hclose.1 hclose.2, h]
  rfl

end Parts

section Blocks

variable (depth : Nat)

theorem noteParts_inlineAt (xs : List Inline) : noteParts (inlineAt depth xs) = [] := by
  have hkinds : ∀ c ∈ ofInlines [] xs, c.kind ∉ noteKinds :=
    forall_kind_ofInlines (p := fun k => k ∉ noteKinds) (by decide) (by simp) xs
  rw [inlineAt, noteParts_single (by simp [leafAt, inline, noteKinds]), List.filter_eq_nil_iff]
  exact fun c hc => by simpa using hkinds c hc

theorem noteParts_enclose {c : Construct} (hc : .opening c ∉ noteKinds ∧ .closing c ∉ noteKinds)
    {t : Token} (ht : t.children = []) {ts : List Token} (h : noteParts ts = []) :
    noteParts (enclose depth c t ts) = [] :=
  noteParts_bracketed ⟨hc.1, ht⟩ ⟨hc.2, ht⟩ h

theorem noteParts_paragraphAt (tight : Bool) (xs : List Inline) :
    noteParts (paragraphAt depth tight xs) = [] :=
  noteParts_enclose depth (by decide) rfl (noteParts_inlineAt _ xs)

theorem noteParts_rowAt {cell : Construct}
    (hcell : .opening cell ∉ noteKinds ∧ .closing cell ∉ noteKinds) (aligns : List (Option Align))
    (row : List (List Inline)) : noteParts (rowAt depth cell aligns row) = [] :=
  noteParts_enclose depth (by decide) rfl <| noteParts_flatMap fun ⟨xs, _⟩ _ =>
    noteParts_bracketed ⟨hcell.1, rfl⟩ ⟨hcell.2, rfl⟩ (noteParts_inlineAt _ xs)

theorem noteParts_tableAt (aligns : List (Option Align)) (header : List (List Inline))
    (rows : List (List (List Inline))) : noteParts (tableAt depth aligns header rows) = [] := by
  refine noteParts_enclose depth (by decide) rfl ?_
  have hheader : noteParts (enclose (depth + 1) .tableHead {}
      (rowAt (depth + 2) .headerCell aligns header)) = [] :=
    noteParts_enclose _ (by decide) rfl (noteParts_rowAt _ (by decide) aligns header)
  have hrows : noteParts (enclose (depth + 1) .tableBody {}
      (rows.flatMap (rowAt (depth + 2) .dataCell aligns))) = [] :=
    noteParts_enclose _ (by decide) rfl <|
      noteParts_flatMap fun row _ => noteParts_rowAt _ (by decide) aligns row
  rw [noteParts_append, hheader, List.nil_append]
  split_ifs
  · rfl
  · exact hrows

mutual

theorem noteParts_ofBlock (depth : Nat) (tight : Bool) :
    ∀ b : Block (List Inline), noteParts (ofBlock depth tight b) = []
  | .paragraph xs => noteParts_paragraphAt depth tight xs
  | .heading _ xs => noteParts_enclose depth (by decide) rfl (noteParts_inlineAt _ xs)
  | .quote body => noteParts_enclose depth (by decide) rfl (noteParts_ofBlocks _ _ body)
  | .list kind tight items =>
    noteParts_enclose depth (by cases kind <;> simp [listConstruct, noteKinds]) rfl
      (noteParts_ofItems _ tight items)
  | .fence _ _ | .indented _ | .html _ | .rule => rfl
  | .table aligns header rows => noteParts_tableAt depth aligns header rows
  | .footnote _ _ => rfl
  | .descriptions items =>
    noteParts_enclose depth (by decide) rfl (noteParts_ofDescriptions _ items)

/-- Blocks have no part of a footnote, not even where one is defined among them. -/
theorem noteParts_ofBlocks (depth : Nat) (tight : Bool) :
    ∀ bs : List (Block (List Inline)), noteParts (ofBlocks depth tight bs) = []
  | [] => rfl
  | b :: bs => by
    rw [ofBlocks, noteParts_append, noteParts_ofBlock depth tight b,
      noteParts_ofBlocks depth tight bs]
    rfl

theorem noteParts_ofItems (depth : Nat) (tight : Bool) :
    ∀ items : List (Item (List Inline)), noteParts (ofItems depth tight items) = []
  | [] => rfl
  | .mk body :: items => by
    rw [ofItems, noteParts_append, noteParts_ofItems depth tight items,
      noteParts_enclose depth (by decide) rfl (noteParts_ofBlocks _ tight body)]
    rfl

theorem noteParts_ofDescriptions (depth : Nat) :
    ∀ items : List (Description (List Inline)), noteParts (ofDescriptions depth items) = []
  | [] => rfl
  | .mk _ term details :: items => by
    unfold ofDescriptions
    rw [noteParts_append, noteParts_append, noteParts_ofDescriptions depth items,
      noteParts_enclose depth (by decide) rfl (noteParts_ofBlocks _ true details)]
    cases term with
    | none => rfl
    | some xs =>
      exact congrArg (· ++ [] ++ []) <|
        noteParts_enclose depth (by decide) rfl (noteParts_paragraphAt _ true xs)

end

end Blocks

section Notes

variable {ts : List Token} {anchor : Token}

theorem anchorFirst?_eq_none : ∀ {ts : List Token}, anchorFirst? anchor ts = none →
    ∀ t ∈ ts, t.kind ≠ .leaf .inline
  | [], _ => nofun
  | t :: ts, h => by
    rw [anchorFirst?] at h
    split_ifs at h with hk
    refine List.forall_mem_cons.2 ⟨fun he => hk (beq_iff_eq.2 he), ?_⟩
    exact anchorFirst?_eq_none (Option.map_eq_none_iff.1 h)

theorem noteParts_anchor (id : Nat) (level : Option Nat) :
    noteParts [{ kind := .leaf .footnoteAnchor, id, level }] =
      [{ kind := .leaf .footnoteAnchor, id, level }] :=
  rfl

/-- A child put behind the others is the only part of a footnote if it is the anchor. -/
theorem noteParts_anchorLast {t : Token} (hk : t.kind ∉ noteKinds) (h : noteParts [t] = [])
    (ha : anchor.kind = .leaf .footnoteAnchor) :
    noteParts [{ t with children := t.children ++ [anchor] }] = [anchor] := by
  rw [noteParts_single hk] at h
  have hanchor : noteKinds.contains anchor.kind = true := by rw [ha]; decide
  rw [noteParts_single (t := { t with children := t.children ++ [anchor] }) hk, List.filter_append,
    h, List.nil_append, List.filter_singleton, hanchor]
  rfl

/-- The anchor is the only part of a footnote that is put into its body. -/
theorem isAnchored_withAnchor (level id : Nat) {body : List Token} (h : noteParts body = []) :
    IsAnchored level id body (withAnchor level id body) := by
  unfold withAnchor
  dsimp only
  split
  · next reversed hr =>
    obtain ⟨after, t, before, hk, hreverse, rfl, hafter⟩ := exists_of_anchorFirst? hr
    have hbody : body = before.reverse ++ t :: after.reverse := by
      rw [← List.reverse_reverse body, hreverse]
      simp
    have hinside : (after ++ { t with children := t.children ++
        [{ kind := .leaf .footnoteAnchor, id }] } :: before).reverse = before.reverse ++
          { t with children := t.children ++ [{ kind := .leaf .footnoteAnchor, id }] } ::
            after.reverse := by
      simp
    rw [hinside]
    have ht : t.kind ∉ noteKinds := by simp [hk, noteKinds]
    rw [hbody, noteParts_append, noteParts_cons, List.append_eq_nil_iff,
      List.append_eq_nil_iff] at h
    obtain ⟨hbefore, hinline, hrest⟩ := h
    refine ⟨⟨{ kind := .leaf .footnoteAnchor, id }, ?_, rfl, rfl⟩, .inl ?_⟩
    · rw [noteParts_append, noteParts_cons, hbefore, hrest, noteParts_anchorLast ht hinline rfl]
      rfl
    · exact ⟨before.reverse, t, after.reverse, hbody, hk,
        fun u hu => hafter u (List.mem_reverse.1 hu), rfl⟩
  · next hnone =>
    refine ⟨⟨leafAt level { kind := .leaf .footnoteAnchor, id }, ?_, rfl, rfl⟩, .inr ⟨?_, rfl⟩⟩
    · rw [noteParts_append, h]
      exact noteParts_anchor id _
    · exact fun t ht => anchorFirst?_eq_none hnone t (List.mem_reverse.2 ht)

theorem flatMap_zipIdx_eq_range {α β : Type} {f : α × Nat → List β} {g : Nat → List β} {as : List α}
    (h : ∀ i a, as[i]? = some a → f (a, i) = g i) :
    as.zipIdx.flatMap f = (List.range as.length).flatMap g := by
  have hmap : as.zipIdx.map f = (List.range as.length).map g := by
    refine List.ext_getElem (by simp) fun i hi _ => ?_
    have hi : i < as.length := by simpa using hi
    simpa using h i as[i] (List.getElem?_eq_getElem hi)
  rw [List.flatMap_def, hmap, List.flatMap_def]

/-- The tokens that stand between the brackets of a footnote. -/
def noteTokens (notes : List Note) (id : Nat) : List Token :=
  (notes[id]?).elim [] fun note => withAnchor 2 id (ofBlocks 2 true note.body)

theorem ofNotes_eq_noteBlock {notes : List Note} (h : notes ≠ []) :
    ofNotes notes = noteBlock notes.length (noteTokens notes) := by
  have hempty : notes.isEmpty = false := by simpa using h
  rw [ofNotes, hempty, if_neg Bool.false_ne_true, noteBlock, enclose]
  refine congrArg (fun ts => _ :: (ts ++ _)) (flatMap_zipIdx_eq_range fun id note hnote => ?_)
  rw [noteTokens, hnote]
  rfl

end Notes

/-- The stream of a document with footnotes ends with one block of them. It has the footnotes in
their order, each between an opening and a closing token with its place, and what stands in between
is the body of the footnote with one anchor, for which only the body is searched. No other token of
the stream and no other child of one belongs to a footnote. -/
theorem ofDocument_eq_append_noteBlock {d : Document} (h : d.notes ≠ []) :
    ∃ inside : Nat → List Token,
      ofDocument d = ofBlocks 0 false d.body ++ noteBlock d.notes.length inside ∧
      noteParts (ofBlocks 0 false d.body) = [] ∧
      ∀ id note, d.notes[id]? = some note →
        IsAnchored 2 id (ofBlocks 2 true note.body) (inside id) := by
  refine ⟨noteTokens d.notes, ?_, noteParts_ofBlocks 0 false d.body, fun id note hnote => ?_⟩
  · rw [ofDocument, ofNotes_eq_noteBlock h]
  · rw [noteTokens, hnote]
    exact isAnchored_withAnchor 2 id (noteParts_ofBlocks 2 true note.body)

/-- A footnote with nothing but code in it has its anchor behind the code, and not in the paragraph
of the footnote before it. -/
theorem ofDocument_eq_append_noteBlock_fence :
    let d : Document :=
      { body := [.paragraph [.footnoteRef "p" 1 1, .footnoteRef "q" 2 1]]
        notes := [⟨"p", 1, [.quote [.paragraph [.text "a"]], .rule]⟩, ⟨"q", 1, [.fence [] "b"]⟩] }
    d.notes ≠ [] ∧ ∃ inside : Nat → List Token,
      ofDocument d = ofBlocks 0 false d.body ++ noteBlock 2 inside ∧
      (∃ anchor, noteParts (inside 0) = [anchor] ∧ anchor.id = 0) ∧
      inside 1 = [{ kind := .leaf .fence, content := "b", level := some 2 },
        { kind := .leaf .footnoteAnchor, id := 1, level := some 2 }] := by
  intro d
  have hnotes : d.notes ≠ [] := by simp [d]
  obtain ⟨inside, hstream, -, hinside⟩ := ofDocument_eq_append_noteBlock hnotes
  obtain ⟨anchor, hanchor, -, hid⟩ := (hinside 0 _ rfl).single
  refine ⟨hnotes, inside, hstream, ⟨anchor, hanchor, hid⟩, ?_⟩
  refine ((hinside 1 _ rfl).place.resolve_left ?_).2
  rintro ⟨before, t, after, hbody, hk, -⟩
  have ht : t ∈ ofBlocks 2 true [.fence [] "b"] := hbody ▸ by simp
  rw [List.mem_singleton.1 ht] at hk
  exact absurd hk (by decide)

end TidyMark.Token
