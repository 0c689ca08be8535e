import TidyMark.Proofs.InlineWalk
import TidyMark.Proofs.LinkText
import TidyMark.Proofs.RawTags

/-!
# Texts that are copied out of tokens

Most rules escape what they write, but addresses, titles, alternative texts, superscripts and raw
HTML are copied as they are (`Visit.exposed`). Those of a link are copied late: its opening token
puts the destination aside and the closing one writes it. So inline content is argued about by the
destinations that its open links have put aside (`PutAside`), of which the innermost is written first
(`PutAside.closing`).
-/

namespace TidyMark.Render

open Token

/-- The texts that are copied out of a token, into what it writes or into the end of its link. -/
def Visit.exposed (v : Visit) : List Text :=
  match v.token.kind with
  | .opening .link =>
    if following? v.after = some (.leaf .image) then [] else [v.token.href, v.token.title]
  | .leaf .image =>
    [v.token.alt, v.token.src, v.token.title] ++ (v.badge?.map (·.href)).toList
  | .leaf .sup | .leaf .htmlTag => [v.token.content]
  | _ => []

/-- The texts that the end of a link writes. -/
def LinkFrame.exposed : LinkFrame → List Text
  | .link href title => [href, title]
  | .badge => []

/-- What the end of a link writes. -/
def LinkFrame.written : LinkFrame → Text
  | .link href title => "](" ++ destination href title ++ ")"
  | .badge => []

/-- Inline content has opened these constructs and put these destinations aside for the links among
them. Others may lie below, from links that were left open. -/
structure PutAside (opened : List Construct) (own : List LinkFrame) (state : State) : Prop where
  links : own <+: state.links
  length : own.length = opened.count .link

section Rules

variable {setting : Setting} {state : State} {s : Sight} {opened : List Construct}
  {own : List LinkFrame} {after : List Token}

theorem PutAside.linkOpen (h : PutAside opened own state) : PutAside (.link :: opened)
    ((if following? s.after = some (.leaf .image) then .badge
      else .link s.token.href s.token.title) :: own) (linkOpen state s).1 := by
  obtain ⟨before, ⟨kind, content, children, level, href, src, title, alt, align, headingLevel,
    tight, block, params, id, subId⟩, after, openLinks⟩ := s
  have hlength : own.length + 1 = (Construct.link :: opened).count .link := by
    rw [h.length, List.count_cons_self]
  simp only [Render.linkOpen, beq_iff_eq]
  split_ifs
  all_goals exact ⟨List.cons_prefix_cons.2 ⟨rfl, h.links⟩, hlength⟩

/-- A link puts aside what its token exposes. -/
theorem PutAside.opening {c : Construct} (h : PutAside opened own state)
    (hs : s.token.kind = .opening c) (hk : s.token.kind.isInline = true)
    (hafter : following? after = following? s.after) :
    ∃ own', PutAside (c :: opened) own' (rule setting state s).1 ∧
      own'.flatMap LinkFrame.exposed =
        Visit.exposed ⟨s.before, s.token, after⟩ ++ own.flatMap LinkFrame.exposed := by
  rw [rule_opening hs]
  unfold Visit.exposed
  rw [hs]
  cases c with
  | emphasis | deleted | strong => exact ⟨own, ⟨h.links, h.length⟩, rfl⟩
  | link =>
    refine ⟨_, h.linkOpen, ?_⟩
    rw [← hafter]
    dsimp only
    split_ifs <;> rfl
  | _ => simp [hs, Kind.isInline] at hk

theorem PutAside.linkClose {frame : LinkFrame}
    (h : PutAside (.link :: opened) (frame :: own) state) :
    (linkClose state).2 = frame.written ∧ PutAside opened own (linkClose state).1 := by
  have hlength := h.length
  rw [List.count_cons_self, List.length_cons, Nat.add_right_cancel_iff] at hlength
  obtain ⟨outer, houter⟩ := h.links
  have hlinks : state.links = frame :: (own ++ outer) := houter.symm
  unfold Render.linkClose
  rw [hlinks]
  cases frame with
  | link href title => exact ⟨rfl, List.prefix_append _ _, hlength⟩
  | badge => exact ⟨rfl, List.prefix_append _ _, hlength⟩

/-- The end of a link writes the destination that was put aside last, and no other end writes one. -/
theorem PutAside.closing {c : Construct} (h : PutAside (c :: opened) own state)
    (hs : s.token.kind = .closing c) (hk : s.token.kind.isInline = true) :
    (c = .link ∧ ∃ frame own', own = frame :: own' ∧ (rule setting state s).2 = frame.written ∧
      PutAside opened own' (rule setting state s).1) ∨
    (c ≠ .link ∧ PutAside opened own (rule setting state s).1) := by
  have hlength := h.length
  rw [rule_closing hs]
  cases c with
  | emphasis | deleted | strong =>
    rw [List.count_cons_of_ne (by decide)] at hlength
    exact .inr ⟨nofun, h.links, hlength⟩
  | link =>
    obtain ⟨frame, own, rfl⟩ := List.exists_cons_of_length_eq_add_one
      (hlength.trans List.count_cons_self)
    exact .inl ⟨rfl, frame, own, rfl, h.linkClose⟩
  | _ => simp [hs, Kind.isInline] at hk

theorem PutAside.leaf {l : Leaf} (h : PutAside opened own state) (hs : s.token.kind = .leaf l) :
    PutAside opened own (rule setting state s).1 := by
  rw [rule_leaf hs]
  cases l with
  | image =>
    obtain ⟨note, text, himage⟩ := exists_image s
    simp only [leafRule, himage]
    exact ⟨h.links, h.length⟩
  | _ => exact h

/-- An image writes itself, and a badge a link around itself. -/
theorem written_image (hs : s.token.kind = .leaf .image) : (image state s).2 =
    (Visit.badge? ⟨s.before, s.token, after⟩).elim (imageText s.token) fun badge =>
      "[" ++ imageText s.token ++ "](" ++ badge.href ++ ")" := by
  have hstep : LinkStep s.before after state.links s.token (image state s).2
      (image state s).1.links := linkStep_image hs
  generalize (image state s).2 = written at hstep ⊢
  generalize state.links = frames, (image state s).1.links = frames' at hstep
  cases hstep with
  | image _ hbadge | badge _ hbadge => rw [hbadge]; rfl
  | opens hk | opensBadge hk | closes hk | closesBadge hk | closesNothing hk =>
    exact absurd (hs.symm.trans hk) nofun
  | other _ _ _ himage => exact absurd hs himage

theorem leafRule_code (h : s.token.block = false) : leafRule setting state s .code =
    (state, codeSpan (escapeBars state.inside s.token.content)) := by
  rw [leafRule, code, h]
  rfl

end Rules

/-- Whether a character ends a cell or a line. -/
def IsBreaking (c : Char) : Prop :=
  c = '|' ∨ c = '\n'

/-- A token is settled as it has been read. -/
theorem isRead_settle {t : Token} (ht : t.IsRead) (takes : Bool) (after : List Token) :
    (settle takes t after).IsRead := by
  have hkind := kind_settle takes t after
  refine ⟨hkind ▸ ht.isInline, fun hk => ?_, fun hk => ?_⟩
  all_goals
    rw [hkind] at hk
    simp [settle, withoutFragment, hk, ht.tag, ht.span]

section Fixed

variable {c : Char} {state : State} {s : Sight}

theorem IsBreaking.not_mem {t : Text} (hc : IsBreaking c) (h : '|' ∉ t ∧ '\n' ∉ t) : c ∉ t := by
  rcases hc with rfl | rfl
  · exact h.1
  · exact h.2

theorem not_mem_ofNat (hc : IsBreaking c) (n : Nat) : c ∉ Text.ofNat n := fun h => by
  have hdigit := Nat.isDigit_of_mem_toDigits (by decide) (by decide) h
  rcases hc with rfl | rfl <;> cases hdigit

theorem not_mem_footnoteAnchorName (hc : IsBreaking c) (t : Token) : c ∉ footnoteAnchorName t := by
  have hname : c ∉ ("fnref" : Text) := hc.not_mem (by decide)
  have hcolon : c ∉ (":" : Text) := hc.not_mem (by decide)
  unfold footnoteAnchorName
  dsimp only
  split <;> simp only [List.mem_append, not_or, hname, hcolon, not_mem_ofNat hc, not_false_eq_true,
    and_self]

theorem not_mem_footnoteRef (hc : IsBreaking c) (t : Token) : c ∉ footnoteRef t := by
  have hn := not_mem_ofNat hc (t.id + 1)
  have hname := not_mem_footnoteAnchorName hc t
  unfold footnoteRef
  dsimp only
  simp only [List.mem_append, not_or]
  refine ⟨⟨⟨⟨⟨⟨?_, hn⟩, ?_⟩, hname⟩, ?_⟩, hn⟩, ?_⟩
  all_goals exact hc.not_mem (by decide)

theorem not_mem_footnoteAnchor (hc : IsBreaking c) (t : Token) : c ∉ footnoteAnchor t := by
  unfold footnoteAnchor
  simp only [List.mem_append, not_or]
  refine ⟨⟨?_, not_mem_footnoteAnchorName hc t⟩, ?_⟩
  all_goals exact hc.not_mem (by decide)

theorem not_mem_linkOpen (hc : IsBreaking c) : c ∉ (linkOpen state s).2 := by
  obtain ⟨before, ⟨kind, content, children, level, href, src, title, alt, align, headingLevel,
    tight, block, params, id, subId⟩, after, openLinks⟩ := s
  simp only [linkOpen]
  split_ifs
  all_goals exact hc.not_mem (by simp)

end Fixed

end TidyMark.Render
