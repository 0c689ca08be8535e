import Mathlib.Tactic.SplitIfs
import TidyMark.Markdown.Inlines

/-!
# How inline content is formed

Inline content is read in a fixed number of ways, whatever the text: a property that each of them
keeps up (`Forms`) holds of everything that is read (`forall_ofText`). Pairing the runs of
delimiters is one of these ways, and it is of use by itself where a property holds only of what is
read from certain texts (`forall_resolve`).
-/

namespace TidyMark.Markdown

variable {q : Inline → Prop}

/-- Whether all pieces are content with this property, delimiters being text. -/
def AllPieces (q : Inline → Prop) (ps : List Piece) : Prop :=
  ∀ p ∈ ps, q p.inline

/-- A property that delimiters keep up: as text, and as marks around content. -/
structure Delimits (q : Inline → Prop) : Prop where
  text (t : Text) : q (.text t)
  delimited (char : Char) (n : Nat) {xs : List Inline} (h : ∀ x ∈ xs, q x) :
    q (delimited char n xs)

/-- A property that every way of reading content keeps up. -/
structure Forms (q : Inline → Prop) : Prop extends Delimits q where
  softBreak : q .softBreak
  lineBreak : q .lineBreak
  code (t : Text) : q (.code t)
  html (t : Text) : q (.html ('<' :: t))
  footnoteRef (name : Text) : q (.footnoteRef name 0 0)
  link (url title : Text) {xs : List Inline} (h : ∀ x ∈ xs, q x) : q (.link url title xs)
  image (url title : Text) {xs : List Inline} (h : ∀ x ∈ xs, q x) : q (.image url title xs)

section Pairing

variable {ps qs : List Piece}

theorem AllPieces.nil : AllPieces q [] :=
  nofun

theorem AllPieces.cons {p : Piece} (hp : q p.inline) (h : AllPieces q ps) :
    AllPieces q (p :: ps) :=
  List.forall_mem_cons.2 ⟨hp, h⟩

theorem AllPieces.append (hp : AllPieces q ps) (hq : AllPieces q qs) : AllPieces q (ps ++ qs) :=
  List.forall_mem_append.2 ⟨hp, hq⟩

theorem AllPieces.reverse (h : AllPieces q ps) : AllPieces q ps.reverse :=
  fun p hp => h p (List.mem_reverse.1 hp)

theorem allPieces_findOpener? {closer opener : Run} :
    ∀ {between before between' before' : List Piece},
      findOpener? closer between before = some (between', opener, before') →
        AllPieces q between → AllPieces q before → AllPieces q between' ∧ AllPieces q before'
  | _, [], _, _, h, _, _ => by simp [findOpener?] at h
  | between, .run r :: before, _, _, h, hbetween, hbefore => by
    obtain ⟨hr, hrest⟩ := List.forall_mem_cons.1 hbefore
    rw [findOpener?] at h
    split_ifs at h
    · cases h
      exact ⟨hbetween, hrest⟩
    · exact allPieces_findOpener? h (hbetween.cons hr) hrest
  | between, .node x :: before, _, _, h, hbetween, hbefore => by
    obtain ⟨hx, hbefore⟩ := List.forall_mem_cons.1 hbefore
    rw [findOpener?] at h
    exact allPieces_findOpener? h (hbetween.cons hx) hbefore

/-- The pieces that pairing leaves behind. -/
def Pairing.pieces : Pairing → List Piece
  | .done before | .mismatch before _ => before

variable (hq : Delimits q)
include hq

theorem allPieces_less (r : Run) (n : Nat) : AllPieces q (r.less n) := by
  unfold Run.less
  split_ifs
  · exact AllPieces.nil.cons (hq.text _)
  · exact .nil

theorem allPieces_pair : ∀ (n : Nat) {closer : Run} {before : List Piece}, AllPieces q before →
    AllPieces q (pair closer before n).pieces
  | 0, _, _, h => h
  | n + 1, closer, before, h => by
    rw [pair]
    split
    · exact h
    split
    · simp only [Pairing.pieces]
      split
      · exact h.cons (hq.text _)
      · exact h.cons (hq.text _)
    · next between opener earlier hopener =>
      obtain ⟨hbetween, hearlier⟩ := allPieces_findOpener? hopener .nil h
      split
      · exact h
      · exact allPieces_pair n (((allPieces_less hq _ _).append hearlier).cons
          (hq.delimited _ _ (List.forall_mem_map.2 hbetween)))

theorem allPieces_pairAll : ∀ {rest before : List Piece}, AllPieces q rest → AllPieces q before →
    AllPieces q (pairAll before rest)
  | [], _, _, h => h
  | .node x :: rest, before, hrest, h => by
    obtain ⟨hx, htail⟩ := List.forall_mem_cons.1 hrest
    rw [pairAll]
    exact allPieces_pairAll htail (h.cons hx)
  | .run r :: rest, before, hrest, h => by
    obtain ⟨hr, htail⟩ := List.forall_mem_cons.1 hrest
    have hpair : AllPieces q (pair r before r.count).pieces := allPieces_pair hq r.count h
    rw [pairAll]
    split_ifs
    · split
      · next hp =>
        rw [hp] at hpair
        exact allPieces_pairAll htail hpair
      · next hp =>
        rw [hp] at hpair
        have hreverse : AllPieces q rest.reverse := AllPieces.reverse htail
        exact hreverse.append (hpair.cons (hq.text _))
    · exact allPieces_pairAll htail (h.cons hr)

theorem forall_resolve (h : AllPieces q ps) : ∀ x ∈ Piece.resolve ps, q x :=
  List.forall_mem_map.2 (allPieces_pairAll hq h .nil).reverse

theorem allPieces_foldl_merge : ∀ {brackets : List OpenBracket} {pieces : List Piece},
    (∀ b ∈ brackets, AllPieces q b.before) → AllPieces q pieces →
      AllPieces q (brackets.foldl Reader.merge pieces)
  | [], _, _, h => h
  | b :: brackets, pieces, hb, h => by
    obtain ⟨hbefore, hb⟩ := List.forall_mem_cons.1 hb
    rw [List.foldl_cons]
    exact allPieces_foldl_merge hb (h.append (hbefore.cons (hq.text _)))

end Pairing

section Reading

/-- Whether all that has been read has this property. -/
structure Reader.Holds (q : Inline → Prop) (r : Reader) : Prop where
  pieces : AllPieces q r.pieces
  before : ∀ b ∈ r.brackets, AllPieces q b.before

variable {r r' : Reader}

/-- One piece more is read into the innermost bracket. -/
theorem Reader.Holds.push (h : r.Holds q) {p : Piece} (hp : q p.inline)
    (hpieces : r'.pieces = p :: r.pieces) (hbrackets : r'.brackets = r.brackets) :
    r'.Holds q where
  pieces := hpieces ▸ h.pieces.cons hp
  before := hbrackets ▸ h.before

theorem Reader.Holds.add (h : r.Holds q) {x : Inline} (hx : q x) : (r.add x).Holds q :=
  h.push (p := .node x) hx rfl rfl

theorem Reader.Holds.openBracket (h : r.Holds q) (image : Bool) (after : Text) :
    (r.openBracket image after).Holds q := by
  refine ⟨.nil, List.forall_mem_cons.2 ⟨h.pieces, ?_⟩⟩
  rcases hb : r.brackets with _ | ⟨b, rest⟩
  · exact nofun
  · obtain ⟨hbefore, hrest⟩ := List.forall_mem_cons.1 (hb ▸ h.before)
    exact List.forall_mem_cons.2 ⟨hbefore, hrest⟩

variable (hq : Forms q)
include hq

theorem Reader.Holds.closeBracket (h : r.Holds q) (defs : Definitions) (after : Text) :
    (Markdown.closeBracket defs r after).2.Holds q := by
  unfold Markdown.closeBracket
  dsimp only
  split
  · exact h.push (p := .node _) (hq.text [']']) rfl rfl
  · next b rest hb =>
    obtain ⟨hbefore, hrest⟩ := List.forall_mem_cons.1 (hb ▸ h.before)
    have hgiveUp : (({ r with inBrackets := false } : Reader).giveUp b rest).Holds q :=
      Reader.Holds.add ⟨h.pieces.append (hbefore.cons (p := .node _) (hq.text _)), hrest⟩
        (hq.text _)
    have hcontent : ∀ x ∈ Piece.resolve r.pieces.reverse, q x :=
      forall_resolve hq.toDelimits h.pieces.reverse
    split
    · exact hgiveUp
    split
    · refine ⟨hbefore.cons ?_, hrest⟩
      simp only [Piece.inline]
      split
      · exact hq.image _ _ hcontent
      · exact hq.link _ _ hcontent
    split
    · next name _ =>
      have hkept : AllPieces q (r.pieces.filter (·.literal?.isNone)) := fun p hp =>
        h.pieces p (List.mem_filter.1 hp).1
      exact ⟨hkept.append (hbefore.cons (p := .node _) (hq.footnoteRef name)), hrest⟩
    · exact hgiveUp

theorem Reader.Holds.readTicks (h : r.Holds q) (width : Nat) (after : Text) :
    (Markdown.readTicks r width after).2.Holds q := by
  unfold Markdown.readTicks
  dsimp only
  split
  · exact h.add (hq.text _)
  split
  · exact h.push (p := .node _) (hq.text _) rfl rfl
  · exact h.push (p := .node _) (hq.code _) rfl rfl

theorem Reader.Holds.readBackslash (h : r.Holds q) (rest : Text) :
    (Markdown.readBackslash r rest).2.Holds q := by
  unfold Markdown.readBackslash
  split
  · split_ifs
    · exact h.add (hq.text _)
    · exact h.add hq.lineBreak
    · exact h.add (hq.text _)
  · exact h.add (hq.text _)

theorem Reader.Holds.readAngle (h : r.Holds q) (rest : Text) :
    (Markdown.readAngle r rest).2.Holds q := by
  have hshown : ∀ t, ∀ x ∈ [readAngle.shown t], q x := fun t =>
    List.forall_mem_singleton.2 (hq.text _)
  unfold Markdown.readAngle
  split
  · exact h.add (hq.link _ _ (hshown _))
  · exact h.add (hq.link _ _ (hshown _))
  split
  · exact h.add (hq.html _)
  · exact h.push (p := .node _) (hq.text _) rfl rfl
  · exact h.add (hq.text _)

theorem Reader.Holds.addText (h : r.Holds q) (t : Text) : (r.addText t).Holds q := by
  unfold Reader.addText
  split_ifs
  · exact h
  · exact h.add (hq.text t)

theorem Reader.Holds.readRun (h : r.Holds q) (c : Char) (before rest : Text) :
    (Markdown.readRun r c before rest).2.Holds q := by
  refine h.push ?_ rfl rfl
  unfold Run.piece
  split
  · exact hq.text _
  · exact hq.text _

/-- Whatever is read next keeps the property up. -/
theorem Reader.Holds.step (h : r.Holds q) (defs : Definitions) (before : Text) (c : Char)
    (rest : Text) : (r.step defs before c rest).2.Holds q := by
  unfold Reader.step
  split
  · exact h.addText hq _
  split
  · refine h.add ?_
    split
    · exact hq.lineBreak
    · exact hq.softBreak
  · exact h.readTicks hq _ _
  · exact h.readBackslash hq rest
  · split
    · exact h.add (hq.text _)
    · exact h.add (hq.text _)
  · exact h.readAngle hq rest
  · exact h.openBracket false rest
  · exact h.closeBracket hq defs rest
  · split
    · split_ifs
      · exact h.add (hq.text _)
      · exact h.openBracket true _
    · exact h.add (hq.text _)
  · exact h.readRun hq _ _ _

theorem Reader.Holds.read (defs : Definitions) : ∀ {r : Reader} (_ : r.Holds q) (before : Text)
    (skip : Nat) (t : Text), (r.read defs before skip t).Holds q
  | _, h, _, _, [] => h
  | _, h, before, skip + 1, c :: t => h.read defs (c :: before) skip t
  | _, h, before, 0, c :: t => (h.step hq defs before c t).read defs (c :: before) _ t

theorem forall_ofText (defs : Definitions) (t : Text) : ∀ x ∈ Inline.ofText defs t, q x := by
  have hempty : ({} : Reader).Holds q := ⟨.nil, nofun⟩
  have hread := hempty.read hq defs [] 0 (Text.trimSpaceEnd t)
  exact forall_resolve hq.toDelimits
    (allPieces_foldl_merge hq.toDelimits hread.before hread.pieces).reverse

end Reading

end TidyMark.Markdown
