import TidyMark.Proofs.LineFeeds

/-!
# Headings on one line

A heading is an `inline` token between its brackets, wherever it stands in a document
(`headed_ofDocument`), and its content is written by the rules that write the content of a paragraph.
So it is written on one line exactly if no line breaks in it and no line feed is copied out of its
tokens (`isOneLine_heading_iff`). An underlined heading may go over several lines, and then it is not
(`not_forall_isOneLine_heading`).
-/

namespace TidyMark

open Token

namespace Token

open Markdown

/-- Whether each heading that begins among tokens is one `inline` token between its brackets. -/
def Headed : List Token → Prop
  | [] => True
  | t :: ts => (t.kind = .opening .heading →
      [Kind.leaf .inline, .closing .heading] <+: ts.map (·.kind)) ∧ Headed ts

section Headings

variable {ts us : List Token}

theorem Headed.append (ht : Headed ts) (hu : Headed us) : Headed (ts ++ us) := by
  induction ts with
  | nil => exact hu
  | cons t ts ih =>
    have hkinds : ts.map (·.kind) <+: (ts ++ us).map (·.kind) := by
      rw [List.map_append]
      exact List.prefix_append _ _
    exact ⟨fun hk => (ht.1 hk).trans hkinds, ih ht.2⟩

theorem Headed.leaf {t : Token} (h : t.kind ≠ .opening .heading) : Headed [t] :=
  ⟨fun hk => absurd hk h, trivial⟩

theorem Headed.bracketed {opening closing : Token} (hopening : opening.kind ≠ .opening .heading)
    (hclosing : closing.kind ≠ .opening .heading) (h : Headed ts) :
    Headed (opening :: (ts ++ [closing])) :=
  ⟨fun hk => absurd hk hopening, h.append (.leaf hclosing)⟩

theorem Headed.flatMap {α : Type} {f : α → List Token} {as : List α}
    (h : ∀ a ∈ as, Headed (f a)) : Headed (as.flatMap f) := by
  induction as with
  | nil => trivial
  | cons a as ih =>
    obtain ⟨ha, has⟩ := List.forall_mem_cons.1 h
    exact ha.append (ih has)

theorem Headed.of_kinds (h : Headed ts) : ∀ {us : List Token},
    us.map (·.kind) = ts.map (·.kind) → Headed us := by
  induction ts with
  | nil =>
    intro us hkinds
    rw [List.map_eq_nil_iff.1 hkinds]
    trivial
  | cons t ts ih =>
    intro us hkinds
    obtain ⟨u, us, rfl, hu, hus⟩ := List.map_eq_cons_iff.1 hkinds
    refine ⟨fun hk => ?_, ih h.2 hus⟩
    rw [hus]
    exact h.1 (hu.symm.trans hk)

theorem Headed.exists_of_append {front : List Token} {t : Token} (h : Headed (front ++ t :: us))
    (hk : t.kind = .opening .heading) : ∃ content closing rest, us = content :: closing :: rest ∧
      content.kind = .leaf .inline ∧ closing.kind = .closing .heading := by
  induction front with
  | nil =>
    obtain ⟨kinds, hkinds⟩ := h.1 hk
    obtain ⟨content, us, rfl, hcontent, hus⟩ := List.map_eq_cons_iff.1 hkinds.symm
    obtain ⟨closing, rest, rfl, hclosing, -⟩ := List.map_eq_cons_iff.1 hus
    exact ⟨content, closing, rest, rfl, hcontent, hclosing⟩
  | cons _ front ih => exact ih h.2

theorem headed_inlineAt (depth : Nat) (xs : List Inline) : Headed (inlineAt depth xs) :=
  .leaf nofun

theorem headed_rowAt (depth : Nat) (cell : Construct) (hcell : cell ≠ .heading)
    (aligns : List (Option Align)) (row : List (List Inline)) :
    Headed (rowAt depth cell aligns row) :=
  .bracketed nofun nofun <| .flatMap fun ⟨xs, _⟩ _ =>
    .bracketed (fun h => hcell (Kind.opening.inj h)) nofun (headed_inlineAt _ xs)

theorem headed_tableAt (depth : Nat) (aligns : List (Option Align)) (header : List (List Inline))
    (rows : List (List (List Inline))) : Headed (tableAt depth aligns header rows) := by
  refine .bracketed nofun nofun (.append ?_ ?_)
  · exact .bracketed nofun nofun (headed_rowAt _ _ (by decide) aligns header)
  · split_ifs
    · trivial
    · exact .bracketed nofun nofun (.flatMap fun row _ => headed_rowAt _ _ (by decide) aligns row)

mutual

theorem headed_ofBlock (depth : Nat) (tight : Bool) :
    ∀ b : Block (List Inline), Headed (ofBlock depth tight b)
  | .paragraph xs => .bracketed nofun nofun (headed_inlineAt _ xs)
  | .heading _ xs => ⟨fun _ => List.prefix_rfl, .append (headed_inlineAt _ xs) (.leaf nofun)⟩
  | .quote body => .bracketed nofun nofun (headed_ofBlocks _ _ body)
  | .list kind tight items =>
    .bracketed (by cases kind <;> nofun) nofun (headed_ofItems _ tight items)
  | .fence _ _ | .indented _ | .html _ | .rule => .leaf nofun
  | .table aligns header rows => headed_tableAt depth aligns header rows
  | .footnote _ _ => trivial
  | .descriptions items => .bracketed nofun nofun (headed_ofDescriptions _ items)

theorem headed_ofBlocks (depth : Nat) (tight : Bool) :
    ∀ bs : List (Block (List Inline)), Headed (ofBlocks depth tight bs)
  | [] => trivial
  | b :: bs => (headed_ofBlock depth tight b).append (headed_ofBlocks depth tight bs)

theorem headed_ofItems (depth : Nat) (tight : Bool) :
    ∀ items : List (Item (List Inline)), Headed (ofItems depth tight items)
  | [] => trivial
  | .mk body :: items =>
    .append (.bracketed nofun nofun (headed_ofBlocks _ tight body))
      (headed_ofItems depth tight items)

theorem headed_ofDescriptions (depth : Nat) :
    ∀ items : List (Description (List Inline)), Headed (ofDescriptions depth items)
  | [] => trivial
  | .mk _ term details :: items => by
    refine .append (.append ?_ ?_) (headed_ofDescriptions depth items)
    · cases term with
      | none => trivial
      | some xs =>
        exact .bracketed nofun nofun (.bracketed nofun nofun (headed_inlineAt _ xs))
    · exact .bracketed nofun nofun (headed_ofBlocks _ true details)

end

theorem headed_withAnchor (depth id : Nat) {body : List Token} (h : Headed body) :
    Headed (withAnchor depth id body) := by
  unfold withAnchor
  dsimp only
  split
  · next reversed hr =>
    obtain ⟨before, t, after, -, hts, rfl, -⟩ := exists_of_anchorFirst? hr
    have hbody : body = (before ++ t :: after).reverse := by rw [← hts, List.reverse_reverse]
    exact h.of_kinds (by simp [hbody])
  · exact h.append (.leaf nofun)

theorem headed_ofNotes (notes : List Note) : Headed (ofNotes notes) := by
  unfold ofNotes
  split_ifs
  · trivial
  · exact .bracketed nofun nofun <| .flatMap fun ⟨note, id⟩ _ =>
      .bracketed nofun nofun (headed_withAnchor _ id (headed_ofBlocks _ true note.body))

theorem headed_ofDocument (d : Document) : Headed (ofDocument d) :=
  (headed_ofBlocks 0 false d.body).append (headed_ofNotes d.notes)

end Headings

end Token

open Render

/-- A heading of a source is one `inline` token between its brackets, which renders to the end in
every state. With targets that have no line feed it is written on one line, and perhaps with a line
feed behind a mark at its end, exactly if no line feed is copied out of its tokens and no line
breaks in it. -/
theorem isOneLine_heading_iff {source : Text} {front behind : List Token} {h : Token}
    (hsource : tokenize source = front ++ h :: behind) (hk : h.kind = .opening .heading)
    {options : Options} (hreflinks : ∀ e ∈ options.reflinks, '\n' ∉ e.2) (state : State) :
    ∃ content closing rest, behind = content :: closing :: rest ∧
      content.kind = .leaf .inline ∧ closing.kind = .closing .heading ∧
      let w := walk (.ofOptions options) state [] 0 false content.children
      w.stopped = none ∧ (IsOneLine w.tokens w.written ↔
        ∀ v ∈ visits [] w.tokens, ∀ u ∈ v.copied, '\n' ∉ u) := by
  have hheaded : Headed (front ++ h :: behind) := hsource ▸ headed_ofDocument _
  obtain ⟨content, closing, rest, rfl, hcontent, hclosing⟩ := hheaded.exists_of_append hk
  refine ⟨content, closing, rest, rfl, hcontent, hclosing, ?_⟩
  intro w
  have hmem : content ∈ tokenize source := by simp [hsource]
  have hread := bears_tokenize source content hmem
  have hordered := (isBracketed_ofDocument _).2 content hmem hcontent
  have havoids : (Setting.ofOptions options).reflinks.Avoids '\n' :=
    Reflink.avoids_withContext hreflinks fun e he => absurd he List.not_mem_nil
  have haside : PutAside [] [] state := ⟨List.nil_prefix, rfl⟩
  refine ⟨(table_walk (fun c hc => (hread c hc).isInline) state [] 0 false).2.2, ?_⟩
  rw [isOneLine_walk havoids hread haside hordered.bracketed [] 0 false nofun rfl]
  simp only [List.flatMap_nil, List.nil_append, List.mem_flatten, List.mem_flatMap]
  exact ⟨fun h v hv u hu hn => h ⟨u, ⟨v, hv, hu⟩, hn⟩, fun h ⟨u, ⟨v, hv, hu⟩, hn⟩ => h v hv u hu hn⟩

/-- A mark at the end of a heading ends its line, which is the end of the heading. -/
theorem isOneLine_heading_iff_mark : ∃ h behind, tokenize "# a *b*" = [] ++ h :: behind ∧
    h.kind = .opening .heading ∧ (∀ e ∈ ({} : Options).reflinks, '\n' ∉ e.2) ∧
    ∃ content closing rest, behind = content :: closing :: rest ∧
      let w := walk (.ofOptions {}) {} [] 0 false content.children
      w.written = "a _b_\n" ∧ w.stopped = none ∧ IsOneLine w.tokens w.written := by
  have hkinds : (tokenize "# a *b*").map (·.kind) =
      [.opening .heading, .leaf .inline, .closing .heading] := by decide +kernel
  obtain ⟨h, behind, hsource, hk, -⟩ := List.map_eq_cons_iff.1 hkinds
  have hcontents : ∀ t ∈ tokenize "# a *b*", t.kind = .leaf .inline →
      let w := walk (.ofOptions {}) {} [] 0 false t.children
      w.written = "a _b_\n" ∧ ∀ v ∈ visits [] w.tokens, ∀ u ∈ v.copied, '\n' ∉ u := by
    decide +kernel
  have hreflinks : ∀ e ∈ ({} : Options).reflinks, '\n' ∉ e.2 := nofun
  have hsplit : tokenize "# a *b*" = [] ++ h :: behind := hsource
  obtain ⟨content, closing, rest, rfl, hcontent, -, hstop, hline⟩ :=
    isOneLine_heading_iff hsplit hk hreflinks {}
  have hmem : content ∈ tokenize "# a *b*" := hsource ▸ .tail h (.head _)
  obtain ⟨hwritten, hcopied⟩ := hcontents content hmem hcontent
  exact ⟨h, _, hsource, hk, hreflinks, content, closing, rest, rfl, hwritten, hstop,
    hline.2 hcopied⟩

/-- An underlined heading of two lines is written on two lines. -/
theorem not_forall_isOneLine_heading : ¬ ∀ (source : Text) (options : Options)
    (front behind : List Token) (h content : Token),
      tokenize source = front ++ h :: content :: behind → h.kind = .opening .heading →
      '\n' ∉ (walk (.ofOptions options) {} [] 0 false content.children).written.dropLast := by
  intro hall
  have hkinds : (tokenize "a\nb\n===").map (·.kind) =
      [.opening .heading, .leaf .inline, .closing .heading] := by decide +kernel
  obtain ⟨h, rest, hsource, hk, hrest⟩ := List.map_eq_cons_iff.1 hkinds
  obtain ⟨content, behind, rfl, hcontent, -⟩ := List.map_eq_cons_iff.1 hrest
  have hwritten : ∀ t ∈ tokenize "a\nb\n===", t.kind = .leaf .inline →
      '\n' ∈ (walk (.ofOptions {}) {} [] 0 false t.children).written.dropLast := by
    decide +kernel
  have hmem : content ∈ tokenize "a\nb\n===" := hsource ▸ .tail h (.head _)
  exact hall _ {} [] behind h content hsource hk (hwritten content hmem hcontent)

end TidyMark
