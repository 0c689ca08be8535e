import TidyMark.Proofs.Findings
import TidyMark.Proofs.Touched

/-!
# What links are written with

A link is written by three rules: the opening token writes a bracket, the closing token the
destination that a stack has kept for it, and an image that a link begins with writes the whole link
in their place. What each token does to the stack is said once (`LinkStep`), a walk is a row of such
steps (`trace_walk`), and what is written of properly nested links follows from the steps
(`Trace.written`): brackets around what is inside and the destination behind them (`linkText`).
This takes that an image which a link begins with is all there is in the link and that the link has
no title (`written_link`); otherwise the rest of the link is written behind it, and the title is
not written (`not_forall_written_link`).
-/

namespace TidyMark.Render

open Token

/-- An image where it is no badge. -/
def imageText (t : Token) : Text :=
  "![" ++ t.alt ++ "](" ++ destination t.src t.title ++ ")"

/-- Tokens with the links written around what is in them. The links that are open have their
innermost one first. -/
def linkText (opened : List Token) : List (Token × Piece) → Text
  | [] => []
  | (t, piece) :: rest =>
    match t.kind, opened with
    | .opening .link, _ => "[" ++ linkText (t :: opened) rest
    | .closing .link, o :: outer => "](" ++ destination o.href o.title ++ ")" ++ linkText outer rest
    | .leaf .image, _ => imageText t ++ linkText opened rest
    | _, _ => piece.text ++ linkText opened rest

/-- Whether an image is all there is in a link that has an address and no title. -/
def Visit.IsWholeLink (v : Visit) : Prop :=
  ∃ link, v.linkBefore? = some link ∧ link.title = [] ∧ link.href ≠ [] ∧
    following? v.after = some (.closing .link)

/-- Whether a token is no badge, or a badge that reads like the image inside its link. -/
def Visit.IsFaithful (v : Visit) : Prop :=
  v.badge? = none ∨ v.IsWholeLink

/-- Whether there is no text whose fragment goes into the address of what stands before it. -/
def FoldsNothing (ts : List Token) : Prop :=
  ts.IsChain fun p t => p.kind = .leaf .image ∨ p.kind = .closing .link → fragmentOf? [t] = none

section Fragments

theorem fragmentOf?_of_afterLink? {ts rest : List Token} {depth : Nat} (hfold : FoldsNothing ts)
    (h : afterLink? depth ts = some rest) : fragmentOf? rest = none := by
  induction ts generalizing depth with
  | nil => cases h
  | cons t ts ih =>
    have htail : FoldsNothing ts := List.IsChain.of_cons hfold
    rw [afterLink?_cons] at h
    split_ifs at h with hend
    · obtain rfl : ts = rest := Option.some.inj h
      cases ts with
      | nil => rfl
      | cons u ts => exact (List.isChain_cons_cons.1 hfold).1 (.inr hend.1)
    · exact ih htail h

theorem linkFragment?_of_foldsNothing {ts : List Token} (hfold : FoldsNothing ts) :
    linkFragment? ts = none := by
  rw [linkFragment?]
  cases h : afterLink? 0 ts with
  | none => rfl
  | some rest => exact fragmentOf?_of_afterLink? hfold h

end Fragments

section Steps

/-- What a token between its neighbours does to the links that are open, and what it writes if it
has to do with links. -/
inductive LinkStep (before after : List Token) :
    List LinkFrame → Token → Text → List LinkFrame → Prop
  | opens {frames : List LinkFrame} {t : Token} (hk : t.kind = .opening .link)
    (hnext : following? after ≠ some (.leaf .image)) :
    LinkStep before after frames t "[" (.link t.href t.title :: frames)
  | opensBadge {frames : List LinkFrame} {t : Token} (hk : t.kind = .opening .link)
    (hnext : following? after = some (.leaf .image)) :
    LinkStep before after frames t [] (.badge :: frames)
  | closes {frames : List LinkFrame} {t : Token} {href title : Text}
    (hk : t.kind = .closing .link) :
    LinkStep before after (.link href title :: frames) t ("](" ++ destination href title ++ ")")
      frames
  | closesBadge {frames : List LinkFrame} {t : Token} (hk : t.kind = .closing .link) :
    LinkStep before after (.badge :: frames) t [] frames
  | closesNothing {t : Token} (hk : t.kind = .closing .link) : LinkStep before after [] t [] []
  | image {frames : List LinkFrame} {t : Token} (hk : t.kind = .leaf .image)
    (hbadge : Visit.badge? ⟨before, t, after⟩ = none) :
    LinkStep before after frames t (imageText t) frames
  | badge {frames : List LinkFrame} {t : Token} {badge : Badge} (hk : t.kind = .leaf .image)
    (hbadge : Visit.badge? ⟨before, t, after⟩ = some badge) :
    LinkStep before after frames t ("[" ++ imageText t ++ "](" ++ badge.href ++ ")") frames
  | other {frames : List LinkFrame} {t : Token} (written : Text) (hopening : t.kind ≠ .opening .link)
    (hclosing : t.kind ≠ .closing .link) (himage : t.kind ≠ .leaf .image) :
    LinkStep before after frames t written frames

/-- A row of steps from some open links on. -/
inductive Trace : List Token → List LinkFrame → List (Token × Piece) → Prop
  | nil {before : List Token} {frames : List LinkFrame} : Trace before frames []
  | cons {before : List Token} {frames frames' : List LinkFrame} {t : Token} {piece : Piece}
    {rest : List (Token × Piece)}
    (h : LinkStep before (rest.map Prod.fst) frames t piece.text frames')
    (hrest : Trace (t :: before) frames' rest) : Trace before frames ((t, piece) :: rest)

variable {setting : Setting} {state : State} {s : Sight}

theorem links_openRule {c : Construct} (hc : c ≠ .link) :
    (openRule setting state s c).1.links = state.links := by
  cases c with
  | link => exact absurd rfl hc
  | listItem =>
    rw [openRule, listItemOpen]
    split
    · split_ifs <;> rfl
    · rfl
  | _ => rfl

theorem links_closeRule {c : Construct} (hc : c ≠ .link) :
    (closeRule state s c).1.links = state.links := by
  cases c with
  | link => exact absurd rfl hc
  | _ => rfl

theorem links_leafRule {l : Leaf} (hl : l ≠ .image) :
    (leafRule setting state s l).1.links = state.links := by
  cases l with
  | image => exact absurd rfl hl
  | _ => rfl

theorem linkStep_linkOpen {after : List Token} (hk : s.token.kind = .opening .link)
    (hfold : linkFragment? s.after = none) (h : following? after = following? s.after) :
    LinkStep s.before after state.links s.token (linkOpen state s).2 (linkOpen state s).1.links := by
  have hcollides : collides s = false := by simp [collides, hfold]
  have hlink : linkOpen state s =
      if following? s.after == some (.leaf .image) then
        ({ state with links := .badge :: state.links }, [])
      else
        ({ state with
            links := .link s.token.href s.token.title :: state.links
            report := state.report.addLink ⟨s.token.href, s.token.title⟩ }, "[") := by
    obtain ⟨before, ⟨kind, content, children, level, href, src, title, alt, align, headingLevel,
      tight, block, params, id, subId⟩, after, openLinks⟩ := s
    rw [linkOpen, hcollides]
    rfl
  rw [hlink, ← h]
  split_ifs with hnext
  · exact .opensBadge hk (beq_iff_eq.1 hnext)
  · exact .opens hk fun hnext' => hnext (beq_iff_eq.2 hnext')

theorem linkStep_linkClose {before after : List Token} {t : Token} (hk : t.kind = .closing .link) :
    LinkStep before after state.links t (linkClose state).2 (linkClose state).1.links := by
  unfold linkClose
  split
  · next hlinks => exact hlinks ▸ .closes hk
  · next hlinks => exact hlinks ▸ .closesBadge hk
  · next hlinks => exact hlinks ▸ .closesNothing hk

theorem linkStep_image {after : List Token} (hk : s.token.kind = .leaf .image) :
    LinkStep s.before after state.links s.token (image state s).2 (image state s).1.links := by
  have hbadge := badge?_eq hk after
  have himage : image state s = (badgeHref? s).elim
      ({ state with report := state.report.addImage ⟨s.token.alt, s.token.src, s.token.title⟩ },
        imageText s.token)
      fun href => ({ state with report := state.report.addBadge ⟨s.token.alt, s.token.src, href⟩ },
        "[" ++ imageText s.token ++ "](" ++ href ++ ")") := by
    obtain ⟨before, ⟨kind, content, children, level, href, src, title, alt, align, headingLevel,
      tight, block, params, id, subId⟩, after, openLinks⟩ := s
    rw [image]
    generalize badgeHref? _ = href
    cases href <;> rfl
  rw [himage]
  cases hhref : badgeHref? s with
  | none => exact .image hk (by rw [hbadge, hhref]; rfl)
  | some href => exact .badge hk (by rw [hbadge, hhref]; rfl)

/-- A rule makes one step. -/
theorem linkStep_rule {after : List Token} (hfold : linkFragment? s.after = none)
    (h : following? after = following? s.after) :
    LinkStep s.before after state.links s.token (rule setting state s).2
      (rule setting state s).1.links := by
  have hother (hopening : s.token.kind ≠ .opening .link) (hclosing : s.token.kind ≠ .closing .link)
      (himage : s.token.kind ≠ .leaf .image)
      (hlinks : (rule setting state s).1.links = state.links) :
      LinkStep s.before after state.links s.token (rule setting state s).2
        (rule setting state s).1.links := by
    rw [hlinks]
    exact .other _ hopening hclosing himage
  cases hk : s.token.kind with
  | opening c =>
    by_cases hc : c = .link
    · subst hc
      have hrule : rule setting state s = linkOpen state s := rule_opening hk
      rw [hrule]
      exact linkStep_linkOpen hk hfold h
    · exact hother (by simpa [hk] using hc) (by simp [hk]) (by simp [hk])
        (by rw [rule_opening hk, links_openRule hc])
  | closing c =>
    by_cases hc : c = .link
    · subst hc
      have hrule : rule setting state s = linkClose state := rule_closing hk
      rw [hrule]
      exact linkStep_linkClose hk
    · exact hother (by simp [hk]) (by simpa [hk] using hc) (by simp [hk])
        (by rw [rule_closing hk, links_closeRule hc])
  | leaf l =>
    by_cases hl : l = .image
    · subst hl
      have hrule : rule setting state s = image state s := rule_leaf hk
      rw [hrule]
      exact linkStep_image hk
    · exact hother (by simp [hk]) (by simp [hk]) (by simpa [hk] using hl)
        (by rw [rule_leaf hk, links_leafRule hl])
  | unknown name => exact hother (by simp [hk]) (by simp [hk]) (by simp [hk]) (by rw [rule, hk])

end Steps

section Walks

variable {setting : Setting} {ts : List Token}

/-- A walk is a row of steps, one for each token. -/
theorem trace_walk (hinline : ∀ t ∈ ts, t.kind ≠ .leaf .inline)
    (hknown : ∀ t ∈ ts, ∀ name, t.kind = .unknown name → setting.options.strict = false)
    (hfold : FoldsNothing ts) :
    ∀ (state : State) (before : List Token) (openLinks : Nat) (takes : Bool) {w : Walk},
      walk setting state before openLinks takes ts = w →
      w.stopped = none ∧ w.pieces.length = w.tokens.length ∧
        Trace before state.links (w.tokens.zip w.pieces) := by
  induction ts with
  | nil =>
    rintro state before openLinks takes w rfl
    rw [walk_nil]
    exact ⟨rfl, rfl, .nil⟩
  | cons t after ih =>
    rintro state before openLinks takes w rfl
    obtain ⟨ht, hinline⟩ := List.forall_mem_cons.1 hinline
    obtain ⟨hgoes, hknown⟩ := List.forall_mem_cons.1 hknown
    have hafter : FoldsNothing after := List.IsChain.of_cons hfold
    rcases step_cases setting state before after openLinks takes ht with
      ⟨name, hname, hstrict, -⟩ | ⟨-, hstep⟩
    · rw [hgoes name hname] at hstrict
      cases hstrict
    · have hnext := following?_walk setting
        (rule setting state ⟨before, settle takes t after, after, openLinks⟩).1
        (settle takes t after :: before) (linksAfter openLinks (settle takes t after).kind)
        (takesFragment openLinks (settle takes t after).kind) after
      rw [walk_cons hstep rfl]
      generalize hw : walk setting _ _ _ _ after = w at hnext
      obtain ⟨hstop, hlength, htrace⟩ := ih hinline hknown hafter _ _ _ _ hw
      refine ⟨hstop, by simp [hlength], ?_⟩
      rw [List.zip_cons_cons]
      refine .cons ?_ htrace
      rw [List.map_fst_zip hlength.ge]
      exact @linkStep_rule setting state ⟨before, settle takes t after, after, openLinks⟩ w.tokens
        (linkFragment?_of_foldsNothing hafter) hnext

end Walks

section Texts

variable {before : List Token} {frames : List LinkFrame} {o c t : Token} {p q : Piece}
  {opened : List Token} {xs ys : List (Token × Piece)}

theorem linkText_opening (hk : t.kind = .opening .link) :
    linkText opened ((t, p) :: xs) = "[" ++ linkText (t :: opened) xs := by
  rw [linkText.eq_def]
  dsimp only
  rw [hk]

theorem linkText_closing (hk : t.kind = .closing .link) : linkText (o :: opened) ((t, p) :: xs) =
    "](" ++ destination o.href o.title ++ ")" ++ linkText opened xs := by
  rw [linkText.eq_def]
  dsimp only
  rw [hk]

theorem linkText_image (hk : t.kind = .leaf .image) :
    linkText opened ((t, p) :: xs) = imageText t ++ linkText opened xs := by
  rw [linkText.eq_def]
  dsimp only
  rw [hk]

theorem linkText_other (hopening : t.kind ≠ .opening .link) (hclosing : t.kind ≠ .closing .link)
    (himage : t.kind ≠ .leaf .image) :
    linkText opened ((t, p) :: xs) = p.text ++ linkText opened xs := by
  rw [linkText.eq_def]
  dsimp only
  split
  · next hk => exact absurd hk hopening
  · next hk => exact absurd hk hclosing
  · next hk => exact absurd hk himage
  · rfl

theorem linkText_append (h : LinksPaired (xs.map Prod.fst)) :
    linkText opened (xs ++ ys) = linkText [] xs ++ linkText opened ys := by
  generalize hts : xs.map Prod.fst = ts at h
  induction h generalizing xs ys opened with
  | nil =>
    obtain rfl := List.map_eq_nil_iff.1 hts
    rfl
  | other hopening hclosing _ ih =>
    obtain ⟨⟨t, p⟩, xs, rfl, rfl, rfl⟩ := List.map_eq_cons_iff.1 hts
    rw [List.cons_append]
    by_cases himage : t.kind = .leaf .image
    · rw [linkText_image himage, linkText_image himage, ih rfl, List.append_assoc]
    · rw [linkText_other hopening hclosing himage, linkText_other hopening hclosing himage, ih rfl,
        List.append_assoc]
  | link hopening hclosing _ _ ihinside ih =>
    obtain ⟨⟨o, p⟩, rest, rfl, rfl, hrest⟩ := List.map_eq_cons_iff.1 hts
    obtain ⟨inside, rest, rfl, hinside, hrest⟩ := List.map_eq_append_iff.1 hrest
    obtain ⟨⟨c, q⟩, xs, rfl, rfl, rfl⟩ := List.map_eq_cons_iff.1 hrest
    rw [List.cons_append, List.append_assoc, List.cons_append, linkText_opening hopening,
      linkText_opening hopening, ihinside hinside, ihinside hinside, linkText_closing hclosing,
      linkText_closing hclosing, ih rfl]
    simp only [List.append_assoc]

end Texts

section Traces

variable {before : List Token} {frames : List LinkFrame} {o c t : Token} {p q : Piece}
  {xs ys : List (Token × Piece)}

theorem Trace.drop (h : Trace before frames (xs ++ ys)) :
    ∃ frames', Trace ((xs.map Prod.fst).reverse ++ before) frames' ys := by
  induction xs generalizing before frames with
  | nil => exact ⟨frames, h⟩
  | cons x xs ih =>
    rw [List.cons_append] at h
    cases h with
    | cons _ hrest =>
      obtain ⟨frames', hys⟩ := ih hrest
      exact ⟨frames', by simpa using hys⟩

/-- Behind the token that opens a link an image is always a badge. -/
theorem badge?_of_preceding {after : List Token} (ho : o.kind = .opening .link)
    (hk : t.kind = .leaf .image) : Visit.badge? ⟨o :: before, t, after⟩ =
      some ⟨t.alt, t.src, if o.href = [] then t.src else o.href⟩ := by
  simp [Visit.badge?, Visit.linkBefore?, ho, hk]

theorem not_isWholeLink {after : List Token} (h : preceding? before ≠ some (.opening .link)) :
    ¬ Visit.IsWholeLink ⟨before, t, after⟩ := by
  rintro ⟨link, hlink, -⟩
  rcases before with _ | ⟨b, before⟩
  · cases hlink
  · have hb : b.kind ≠ .opening .link := fun hb => h (congrArg some hb)
    simp [Visit.linkBefore?, hb] at hlink

theorem LinksPaired.head_ne {ts : List Token} (h : LinksPaired (t :: ts)) :
    t.kind ≠ .closing .link := by
  cases h with
  | other _ hclosing _ => exact hclosing
  | link hopening _ _ _ => simp [hopening]

theorem following?_append (hc : c.kind = .closing .link) (ts us : List Token) :
    following? (ts ++ c :: us) = some (.leaf .image) ↔ following? ts = some (.leaf .image) := by
  cases ts with
  | nil => simp [following?, hc]
  | cons t ts => rfl

/-- A step that opens or closes no link leaves the links as they are, and what it writes is what is
to be written there. -/
theorem LinkStep.eq_of_ne {after : List Token} {frames' : List LinkFrame}
    (h : LinkStep before after frames t p.text frames') (hopening : t.kind ≠ .opening .link)
    (hclosing : t.kind ≠ .closing .link)
    (hbadge : Visit.badge? ⟨before, t, after⟩ = none) :
    frames' = frames ∧ linkText [] ((t, p) :: xs) = p.text ++ linkText [] xs := by
  generalize hw : p.text = written at h
  cases h with
  | opens hk _ | opensBadge hk _ => exact absurd hk hopening
  | closes hk | closesBadge hk | closesNothing hk => exact absurd hk hclosing
  | image hk _ => exact ⟨rfl, linkText_image hk⟩
  | badge hk hsome => cases hbadge.symm.trans hsome
  | other _ _ _ himage => exact ⟨rfl, by rw [linkText_other hopening hclosing himage, hw]⟩

/-- A link whose first token is no image keeps its destination for its end. -/
theorem Trace.opens (ho : o.kind = .opening .link) (h : Trace before frames ((o, p) :: xs))
    (hnext : following? (xs.map Prod.fst) ≠ some (.leaf .image)) :
    p.text = "[" ∧ Trace (o :: before) (.link o.href o.title :: frames) xs := by
  cases h with
  | cons hstep hrest =>
    generalize p.text = written at hstep ⊢
    cases hstep <;> simp_all

theorem Trace.closes {href title : Text} (hc : c.kind = .closing .link)
    (h : Trace before (.link href title :: frames) ((c, q) :: xs)) :
    q.text = "](" ++ destination href title ++ ")" ∧ Trace (c :: before) frames xs := by
  cases h with
  | cons hstep hrest =>
    generalize q.text = written at hstep ⊢
    cases hstep <;> simp_all

theorem Trace.opensBadge (ho : o.kind = .opening .link) (h : Trace before frames ((o, p) :: xs))
    (hnext : following? (xs.map Prod.fst) = some (.leaf .image)) :
    p.text = [] ∧ Trace (o :: before) (.badge :: frames) xs := by
  cases h with
  | cons hstep hrest =>
    generalize p.text = written at hstep ⊢
    cases hstep <;> simp_all

theorem Trace.badge {badge : Badge} (ht : t.kind = .leaf .image)
    (h : Trace before frames ((t, p) :: xs))
    (hbadge : Visit.badge? ⟨before, t, xs.map Prod.fst⟩ = some badge) :
    p.text = "[" ++ imageText t ++ "](" ++ badge.href ++ ")" ∧ Trace (t :: before) frames xs := by
  cases h with
  | cons hstep hrest =>
    generalize p.text = written at hstep ⊢
    cases hstep <;> simp_all

theorem Trace.closesBadge (hc : c.kind = .closing .link)
    (h : Trace before (.badge :: frames) ((c, q) :: xs)) :
    q.text = [] ∧ Trace (c :: before) frames xs := by
  cases h with
  | cons hstep hrest =>
    generalize q.text = written at hstep ⊢
    cases hstep <;> simp_all

/-- Whether the tokens of a stretch are no badges, or badges that read like images in links. -/
def FaithfulIn (before ts after : List Token) : Prop :=
  ∀ us t vs, ts = us ++ t :: vs → Visit.IsFaithful ⟨us.reverse ++ before, t, vs ++ after⟩

theorem FaithfulIn.tail {us ts after : List Token} (h : FaithfulIn before (us ++ ts) after) :
    FaithfulIn (us.reverse ++ before) ts after := by
  rintro vs t ws rfl
  simpa using h (us ++ vs) t ws (by simp)

theorem FaithfulIn.init {us ts after : List Token} (h : FaithfulIn before (ts ++ us) after) :
    FaithfulIn before ts (us ++ after) := by
  rintro vs t ws rfl
  simpa using h vs t (ws ++ us) (by simp)

/-- A stretch that begins with an image behind the token that opens a link is all of the link. -/
theorem FaithfulIn.eq_of_image {i : Token} {ts after : List Token} (ho : o.kind = .opening .link)
    (hi : i.kind = .leaf .image) (hpaired : LinksPaired (i :: ts))
    (h : FaithfulIn (o :: before) (i :: ts) after) : ts = [] ∧ o.title = [] ∧ o.href ≠ [] := by
  have hhere : Visit.IsFaithful ⟨o :: before, i, ts ++ after⟩ := h [] i ts rfl
  rcases hhere with hnone | ⟨link, hlink, htitle, hhref, hnext⟩
  · cases hnone.symm.trans (badge?_of_preceding ho hi)
  · obtain rfl : o = link := by simpa [Visit.linkBefore?, ho] using hlink
    refine ⟨?_, htitle, hhref⟩
    cases hpaired with
    | link hopening _ _ _ => cases hi.symm.trans hopening
    | other _ _ hpaired =>
      cases ts with
      | nil => rfl
      | cons t ts => exact absurd (Option.some.inj hnext) hpaired.head_ne

/-- A link is written around what is in it as soon as that is written as it should be in a link
that does not begin with an image. -/
theorem Trace.link {inside : List (Token × Piece)} (ho : o.kind = .opening .link)
    (hc : c.kind = .closing .link) (hpaired : LinksPaired (inside.map Prod.fst))
    (h : Trace before frames ((o, p) :: (inside ++ (c, q) :: ys)))
    (hfaithful : FaithfulIn (o :: before) (inside.map Prod.fst) (c :: ys.map Prod.fst))
    (hinside : following? (inside.map Prod.fst) ≠ some (.leaf .image) → ∀ {frames'},
      Trace (o :: before) frames' (inside ++ (c, q) :: ys) →
        inside.flatMap (·.2.text) = linkText [] inside ∧
          Trace ((inside.map Prod.fst).reverse ++ o :: before) frames' ((c, q) :: ys)) :
    p.text ++ (inside.flatMap (·.2.text) ++ q.text) =
        "[" ++ linkText [] inside ++ "](" ++ destination o.href o.title ++ ")" ∧
      Trace (c :: ((inside.map Prod.fst).reverse ++ o :: before)) frames ys := by
  have hfollowing := @following?_append c hc (inside.map Prod.fst) (ys.map Prod.fst)
  rw [← List.map_cons (f := Prod.fst) (a := (c, q)), ← List.map_append] at hfollowing
  by_cases hnext : following? (inside.map Prod.fst) = some (.leaf .image)
  · obtain ⟨hp, h⟩ := h.opensBadge ho (hfollowing.2 hnext)
    rcases inside with _ | ⟨⟨i, r⟩, inside⟩
    · cases hnext
    have hi : i.kind = .leaf .image := Option.some.inj hnext
    obtain ⟨hnil, htitle, hhref⟩ := hfaithful.eq_of_image ho hi hpaired
    obtain rfl := List.map_eq_nil_iff.1 hnil
    obtain ⟨hr, h⟩ := h.badge hi (badge?_of_preceding ho hi)
    obtain ⟨hq, h⟩ := h.closesBadge hc
    refine ⟨?_, h⟩
    have hdestination : destination o.href o.title = o.href := by rw [htitle]; rfl
    rw [hp, hq, List.flatMap_cons, List.flatMap_nil, hr, if_neg hhref, linkText_image hi, hdestination]
    simp [linkText]
  · obtain ⟨hp, h⟩ := h.opens ho fun heq => hnext (hfollowing.1 heq)
    obtain ⟨hwritten, h⟩ := hinside hnext h
    obtain ⟨hq, h⟩ := h.closes hc
    refine ⟨?_, h⟩
    rw [hp, hwritten, hq]
    simp only [List.append_assoc]

/-- Properly nested links are written around what is in them, and leave the links open that were
open before. -/
theorem Trace.written (hp : LinksPaired (xs.map Prod.fst)) (h : Trace before frames (xs ++ ys))
    (hfirst : preceding? before = some (.opening .link) →
      following? (xs.map Prod.fst) ≠ some (.leaf .image))
    (hfaithful : FaithfulIn before (xs.map Prod.fst) (ys.map Prod.fst)) :
    xs.flatMap (·.2.text) = linkText [] xs ∧
      Trace ((xs.map Prod.fst).reverse ++ before) frames ys := by
  generalize hts : xs.map Prod.fst = ts at hp
  induction hp generalizing xs ys before frames with
  | nil =>
    obtain rfl := List.map_eq_nil_iff.1 hts
    exact ⟨rfl, h⟩
  | other hopening hclosing _ ih =>
    obtain ⟨⟨t, p⟩, xs, rfl, rfl, rfl⟩ := List.map_eq_cons_iff.1 hts
    have hbadge : Visit.badge? ⟨before, t, (xs ++ ys).map Prod.fst⟩ = none := by
      have hhere : Visit.IsFaithful ⟨before, t, (xs ++ ys).map Prod.fst⟩ := by
        rw [List.map_append]
        exact hfaithful [] t (xs.map Prod.fst) rfl
      by_cases hk : t.kind = .leaf .image
      · exact hhere.resolve_right (not_isWholeLink fun hpre => hfirst hpre (congrArg some hk))
      · exact badge?_of_ne hk
    have hnext : preceding? (t :: before) ≠ some (.opening .link) := fun hpre =>
      hopening (Option.some.inj hpre)
    cases h with
    | cons hstep hrest =>
      obtain ⟨rfl, htext⟩ := hstep.eq_of_ne hopening hclosing hbadge
      have hbehind : FaithfulIn (t :: before) (xs.map Prod.fst) (ys.map Prod.fst) :=
        @FaithfulIn.tail before [t] _ _ hfaithful
      obtain ⟨hwritten, htrace⟩ := ih hrest (fun hpre => absurd hpre hnext) hbehind rfl
      refine ⟨?_, by simpa using htrace⟩
      rw [List.flatMap_cons, hwritten, htext]
  | link hopening hclosing hpaired _ ihinside ih =>
    obtain ⟨⟨o, p⟩, rest, rfl, rfl, hcontent⟩ := List.map_eq_cons_iff.1 hts
    obtain ⟨inside, rest, rfl, hinside, hbehind⟩ := List.map_eq_append_iff.1 hcontent
    obtain ⟨⟨c, q⟩, xs, rfl, rfl, rfl⟩ := List.map_eq_cons_iff.1 hbehind
    have hbetween : FaithfulIn (o :: before) (inside.map Prod.fst) (c :: (xs ++ ys).map Prod.fst) := by
      have htail := @FaithfulIn.tail before [o] (inside.map Prod.fst ++ c :: xs.map Prod.fst)
        (ys.map Prod.fst) (by simpa using hfaithful)
      simpa using htail.init
    have hxs : FaithfulIn (c :: ((inside.map Prod.fst).reverse ++ o :: before)) (xs.map Prod.fst)
        (ys.map Prod.fst) := by
      have htail := @FaithfulIn.tail before (o :: (inside.map Prod.fst ++ [c])) (xs.map Prod.fst)
        (ys.map Prod.fst) (by simpa using hfaithful)
      simpa using htail
    rw [← hinside] at hpaired
    have hlink := @Trace.link before frames o c p q (xs ++ ys) inside hopening hclosing hpaired
      (by simpa using h) hbetween fun hnext frames' h => by
        have := ihinside h (fun _ => hnext) (by simpa using hbetween) hinside
        rwa [← hinside] at this
    have hnext : preceding? (c :: ((inside.map Prod.fst).reverse ++ o :: before)) ≠
        some (.opening .link) := fun hpre => by cases hclosing.symm.trans (Option.some.inj hpre)
    obtain ⟨hwritten, htrace⟩ := ih hlink.2 (fun hpre => absurd hpre hnext) hxs rfl
    refine ⟨?_, by simpa [← hinside] using htrace⟩
    rw [linkText_opening hopening, linkText_append hpaired, linkText_closing hclosing, ← hwritten]
    rw [List.flatMap_cons, List.flatMap_append, List.flatMap_cons]
    simpa using congrArg (· ++ xs.flatMap (·.2.text)) hlink.1

end Traces

section Links

/-- A visit takes in no more than the tokens next to its own. -/
theorem Visit.IsFaithful.congr {before before' after after' : List Token} {t : Token}
    (h : Visit.IsFaithful ⟨before, t, after⟩) (hbefore : before.head? = before'.head?)
    (hafter : after.head? = after'.head?) : Visit.IsFaithful ⟨before', t, after'⟩ := by
  have hlink : Visit.linkBefore? ⟨before, t, after⟩ = Visit.linkBefore? ⟨before', t, after'⟩ := by
    cases before <;> cases before' <;> simp_all [Visit.linkBefore?]
  have hbadge : Visit.badge? ⟨before, t, after⟩ = Visit.badge? ⟨before', t, after'⟩ := by
    simp only [Visit.badge?, hlink]
  rcases h with hnone | ⟨link, hsome, htitle, hhref, hnext⟩
  · exact .inl (hbadge.symm.trans hnone)
  · refine .inr ⟨link, hlink.symm.trans hsome, htitle, hhref, ?_⟩
    simpa only [following?, ← hafter] using hnext

theorem mem_visits (before us : List Token) (t : Token) (vs : List Token) :
    ⟨us.reverse ++ before, t, vs⟩ ∈ visits before (us ++ t :: vs) := by
  induction us generalizing before with
  | nil =>
    obtain ⟨kind, content, children, level, href, src, title, alt, align, headingLevel, tight, block,
      params, id, subId⟩ := t
    rw [List.nil_append, visits, visitsTo]
    exact List.mem_append_left _ List.mem_cons_self
  | cons u us ih =>
    rw [List.cons_append, visits]
    have hmem := ih (u :: before)
    rw [← List.singleton_append, ← List.append_assoc, ← List.reverse_cons] at hmem
    exact List.mem_append_right _ hmem

/-- What a visit to a link finds in it does not depend on what stands around the link. -/
theorem faithfulIn_of_visits {o c : Token} {ts : List Token}
    (h : ∀ v ∈ visits [o] (ts ++ [c]), v.IsFaithful) (before after : List Token) :
    FaithfulIn (o :: before) ts (c :: after) := by
  rintro us t vs rfl
  have hhere := h ⟨us.reverse ++ [o], t, vs ++ [c]⟩ (by
    rw [List.append_assoc, List.cons_append]
    exact mem_visits [o] us t (vs ++ [c]))
  exact hhere.congr (by simp [List.head?_append]) (by simp [List.head?_append])

/-- A walk over inline tokens, none of which gives a fragment to an address, writes each link around
all that is in it, with the destination that the token has in the end, if the images in the link
are no badges or are all there is in a link with an address and without a title. -/
theorem written_link (setting : Setting) (state : State) (before : List Token) (openLinks : Nat)
    (takes : Bool) {ts : List Token} (hinline : ∀ t ∈ ts, t.kind ≠ .leaf .inline)
    (hknown : ∀ t ∈ ts, ∀ name, t.kind = .unknown name → setting.options.strict = false)
    (hfold : FoldsNothing ts) :
    let w := walk setting state before openLinks takes ts
    w.stopped = none ∧ w.pieces.length = w.tokens.length ∧
      ∀ (outside : List (Token × Piece)) (o : Token) (p : Piece) (inside : List (Token × Piece))
        (c : Token) (q : Piece) (behind : List (Token × Piece)),
        w.tokens.zip w.pieces = outside ++ (o, p) :: (inside ++ (c, q) :: behind) →
        o.kind = .opening .link → c.kind = .closing .link → LinksPaired (inside.map Prod.fst) →
        (∀ v ∈ visits [o] (inside.map Prod.fst ++ [c]), v.IsFaithful) →
        p.text ++ inside.flatMap (·.2.text) ++ q.text =
          "[" ++ linkText [] inside ++ "](" ++ destination o.href o.title ++ ")" := by
  intro w
  obtain ⟨hstop, hlength, htrace⟩ := trace_walk hinline hknown hfold state before openLinks takes
    (rfl : _ = w)
  refine ⟨hstop, hlength, fun outside o p inside c q behind hsplit ho hc hpaired hvisits => ?_⟩
  rw [hsplit] at htrace
  obtain ⟨frames, htrace⟩ := htrace.drop
  have hfaithful := faithfulIn_of_visits hvisits ((outside.map Prod.fst).reverse ++ before)
    (behind.map Prod.fst)
  have hlink := htrace.link ho hc hpaired hfaithful fun hnext frames' h =>
    h.written hpaired (fun _ => hnext) hfaithful
  rw [List.append_assoc]
  exact hlink.1

/-- A link with a title and an image at its end. -/
theorem written_link_image_last :
    let setting : Setting := .ofOptions {}
    let o : Token := { kind := .opening .link, href := "h", title := "t" }
    let b : Token := { content := "b " }
    let i : Token := { kind := .leaf .image, alt := "a", src := "s.svg" }
    let c : Token := { kind := .closing .link }
    let inside : List (Token × Piece) := [(b, ⟨.plain, "b "⟩), (i, ⟨.plain, "![a](s.svg)"⟩)]
    let w := walk setting {} [] 0 false [o, b, i, c]
    (∀ t ∈ [o, b, i, c], t.kind ≠ .leaf .inline) ∧
      (∀ t ∈ [o, b, i, c], ∀ name, t.kind = .unknown name → setting.options.strict = false) ∧
      FoldsNothing [o, b, i, c] ∧
      w.tokens.zip w.pieces =
        [] ++ (o, ⟨.plain, "["⟩) :: (inside ++ (c, ⟨.plain, "](h \"t\")"⟩) :: []) ∧
      LinksPaired (inside.map Prod.fst) ∧
      (∀ v ∈ visits [o] (inside.map Prod.fst ++ [c]), v.IsFaithful) ∧
      "[" ++ inside.flatMap (·.2.text) ++ "](h \"t\")" =
        "[" ++ linkText [] inside ++ "](" ++ destination o.href o.title ++ ")" := by
  intro setting o b i c inside w
  have hinline : ∀ t ∈ [o, b, i, c], t.kind ≠ .leaf .inline := by decide
  have hknown : ∀ t ∈ [o, b, i, c], ∀ name, t.kind = .unknown name →
      setting.options.strict = false := fun _ _ _ _ => rfl
  have hfold : FoldsNothing [o, b, i, c] := by
    unfold FoldsNothing
    decide
  have hsplit : w.tokens.zip w.pieces =
      [] ++ (o, ⟨.plain, "["⟩) :: (inside ++ (c, ⟨.plain, "](h \"t\")"⟩) :: []) := rfl
  have hpaired : LinksPaired (inside.map Prod.fst) := .other nofun nofun (.other nofun nofun .nil)
  have hvisits : ∀ v ∈ visits [o] (inside.map Prod.fst ++ [c]), v.IsFaithful := by
    have hall : visits [o] (inside.map Prod.fst ++ [c]) =
      [⟨[o], b, [i, c]⟩, ⟨[b, o], i, [c]⟩, ⟨[i, b, o], c, []⟩] := rfl
    rw [hall]
    simp only [List.forall_mem_cons]
    exact ⟨.inl (by decide), .inl (by decide), .inl (by decide), nofun⟩
  exact ⟨hinline, hknown, hfold, hsplit, hpaired, hvisits,
    (written_link setting {} [] 0 false hinline hknown hfold).2.2 [] o ⟨.plain, "["⟩ inside c
      ⟨.plain, "](h \"t\")"⟩ [] hsplit rfl rfl hpaired hvisits⟩

/-- Where a link begins with an image, what is behind the image is written behind the link, and its
title is not written at all. -/
theorem not_forall_written_link :
    ¬ ∀ (setting : Setting) (ts : List Token), (∀ t ∈ ts, t.kind ≠ .leaf .inline) →
      (∀ t ∈ ts, ∀ name, t.kind = .unknown name → setting.options.strict = false) →
      LinksPaired ts → FoldsNothing ts →
      let w := walk setting {} [] 0 false ts
      ∀ (outside : List (Token × Piece)) (o : Token) (p : Piece) (inside : List (Token × Piece))
        (c : Token) (q : Piece) (behind : List (Token × Piece)),
        w.tokens.zip w.pieces = outside ++ (o, p) :: (inside ++ (c, q) :: behind) →
        o.kind = .opening .link → c.kind = .closing .link → LinksPaired (inside.map Prod.fst) →
        p.text ++ inside.flatMap (·.2.text) ++ q.text =
          "[" ++ linkText [] inside ++ "](" ++ destination o.href o.title ++ ")" := by
  intro h
  let o : Token := { kind := .opening .link, href := "h", title := "t" }
  let i : Token := { kind := .leaf .image, alt := "a", src := "s.svg" }
  let b : Token := { content := " b" }
  let c : Token := { kind := .closing .link }
  have hpaired : LinksPaired [i, b] := .other nofun nofun (.other nofun nofun .nil)
  have hlink := h (.ofOptions {}) [o, i, b, c] (by decide) (fun _ _ _ _ => rfl)
    (.link rfl rfl hpaired .nil) (by unfold FoldsNothing; decide) [] o ⟨.plain, []⟩
    [(i, ⟨.plain, "[![a](s.svg)](h)"⟩), (b, ⟨.plain, " b"⟩)] c ⟨.plain, []⟩ [] rfl rfl rfl hpaired
  exact absurd hlink (by decide)

end Links

end TidyMark.Render
