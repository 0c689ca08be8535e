import Mathlib.Data.List.Chain
import TidyMark.Token.Stream

/-!
# Brackets and levels

An opening and a closing token are a pair of brackets around what stands in a construct, and the
level of a token says how many such pairs stand around it. `isBracketed` reads a stream from left to
right and holds it to that. The stream of any document passes (`isBracketed_ofDocument`): the tokens
of each part of the tree are a `Stretch`, which opens as much as it closes, and stretches may stand
one behind another and between the brackets of a construct one level further out.

The children of an `inline` token have no levels, but are bracketed in the same way, and texts in a
row are one token (`IsOrdered`).
-/

namespace TidyMark.Token

open Markdown

/-- Whether tokens close what is open before them, the innermost of `opened` first, and all that
they open themselves. `level n` is the level that a token has inside `n` constructs; an opening and
a closing token stand outside their own construct. -/
def isBracketed (level : Nat → Option Nat) (opened : List Construct) : List Token → Bool
  | [] => opened.isEmpty
  | t :: rest =>
    match t.kind, opened with
    | .opening c, _ => t.level == level opened.length && isBracketed level (c :: opened) rest
    | .closing c, d :: outer => c == d && t.level == level outer.length && isBracketed level outer rest
    | .closing _, [] => false
    | .leaf _, _ | .unknown _, _ => t.level == level opened.length && isBracketed level opened rest

def isText (t : Token) : Bool :=
  t.kind == .leaf .text

/-- Whether no text stands directly behind another. -/
def IsMerged (ts : List Token) : Prop :=
  ts.IsChain fun t u => ¬(t.isText = true ∧ u.isText = true)

/-- The children of an `inline` token: bracketed, without levels, and with texts in a row merged. -/
structure IsOrdered (children : List Token) : Prop where
  bracketed : isBracketed (fun _ => none) [] children = true
  merged : IsMerged children

section Brackets

variable {level : Nat → Option Nat} {after : List Token} {opened : List Construct} {t : Token}

theorem isBracketed_opening {c : Construct} (hk : t.kind = .opening c) :
    isBracketed level opened (t :: after) =
      (t.level == level opened.length && isBracketed level (c :: opened) after) := by
  simp only [isBracketed, hk]

theorem isBracketed_closing {c : Construct} (hk : t.kind = .closing c) :
    isBracketed level (c :: opened) (t :: after) =
      (t.level == level opened.length && isBracketed level opened after) := by
  simp only [isBracketed, hk, beq_self_eq_true, Bool.true_and]

theorem isBracketed_leaf {l : Leaf} (hk : t.kind = .leaf l) :
    isBracketed level opened (t :: after) =
      (t.level == level opened.length && isBracketed level opened after) := by
  simp only [isBracketed, hk]

end Brackets

section Children

variable {after : List Token} {opened : List Construct}

theorem isBracketed_child {t : Token} {l : Leaf} (hk : t.kind = .leaf l) (hlevel : t.level = none) :
    isBracketed (fun _ => none) opened (t :: after) = isBracketed (fun _ => none) opened after := by
  rw [isBracketed_leaf hk, hlevel, beq_self_eq_true, Bool.true_and]

theorem isBracketed_consText (t : Text) :
    isBracketed (fun _ => none) opened (consText t after) =
      isBracketed (fun _ => none) opened after := by
  unfold consText
  split
  · next next rest =>
    split_ifs with hk
    · simp only [isBracketed]
    · exact isBracketed_child rfl rfl
  · exact isBracketed_child rfl rfl

/-- A construct of inline content: what stands between its brackets leaves nothing open. -/
theorem isBracketed_wrapped {opening closing : Token} {c : Construct} {inside : List Token}
    (hopen : opening.kind = .opening c ∧ opening.level = none)
    (hclose : closing.kind = .closing c ∧ closing.level = none)
    (h : isBracketed (fun _ => none) (c :: opened) inside =
      isBracketed (fun _ => none) (c :: opened) (closing :: after)) :
    isBracketed (fun _ => none) opened (opening :: inside) =
      isBracketed (fun _ => none) opened after := by
  rw [isBracketed_opening hopen.1, hopen.2, h, isBracketed_closing hclose.1, hclose.2,
    beq_self_eq_true, Bool.true_and, Bool.true_and]

mutual

/-- Inline content leaves open what is open before it. -/
theorem isBracketed_ofInline (after : List Token) (opened : List Construct) : ∀ x : Inline,
    isBracketed (fun _ => none) opened (ofInline after x) =
      isBracketed (fun _ => none) opened after
  | .text t => isBracketed_consText t
  | .softBreak | .lineBreak | .code _ | .html _ | .superscript _ | .image _ _ _
  | .footnoteRef _ _ _ => isBracketed_child rfl rfl
  | .emphasis xs | .strong xs | .strikethrough xs | .link _ _ xs =>
    isBracketed_wrapped ⟨rfl, rfl⟩ ⟨rfl, rfl⟩ (isBracketed_ofInlines _ _ xs)

theorem isBracketed_ofInlines (after : List Token) (opened : List Construct) : ∀ xs : List Inline,
    isBracketed (fun _ => none) opened (ofInlines after xs) =
      isBracketed (fun _ => none) opened after
  | [] => rfl
  | x :: xs => by
    rw [ofInlines, isBracketed_ofInline, isBracketed_ofInlines]

end

theorem isMerged_cons {t : Token} (ht : t.isText = false) (h : IsMerged after) :
    IsMerged (t :: after) := by
  cases after with
  | nil => exact .singleton t
  | cons u after => exact .cons_cons (by simp [ht]) h

theorem isMerged_consText (t : Text) (h : IsMerged after) : IsMerged (consText t after) := by
  unfold consText
  split
  · next next rest =>
    split_ifs with hk
    · cases rest with
      | nil => exact .singleton _
      | cons u rest =>
        have hnext := List.isChain_cons_cons.1 h
        exact .cons_cons hnext.1 hnext.2
    · exact .cons_cons (fun hne => hk hne.2) h
  · exact .singleton _

mutual

theorem isMerged_ofInline (after : List Token) (h : IsMerged after) : ∀ x : Inline,
    IsMerged (ofInline after x)
  | .text t => isMerged_consText t h
  | .softBreak | .lineBreak | .code _ | .html _ | .superscript _ | .image _ _ _
  | .footnoteRef _ _ _ => isMerged_cons rfl h
  | .emphasis xs | .strong xs | .strikethrough xs | .link _ _ xs =>
    isMerged_cons rfl (isMerged_ofInlines _ (isMerged_cons rfl h) xs)

theorem isMerged_ofInlines (after : List Token) (h : IsMerged after) : ∀ xs : List Inline,
    IsMerged (ofInlines after xs)
  | [] => h
  | x :: xs => by
    rw [ofInlines]
    exact isMerged_ofInline _ (isMerged_ofInlines after h xs) x

end

theorem isOrdered_ofInlines (xs : List Inline) : IsOrdered (ofInlines [] xs) :=
  ⟨isBracketed_ofInlines [] [] xs, isMerged_ofInlines [] .nil xs⟩

theorem isBracketed_concat {t : Token} {l : Leaf} (hk : t.kind = .leaf l) (hlevel : t.level = none)
    {ts : List Token} (h : isBracketed (fun _ => none) opened ts = true) :
    isBracketed (fun _ => none) opened (ts ++ [t]) = true := by
  induction ts generalizing opened with
  | nil => rwa [List.nil_append, isBracketed_child hk hlevel]
  | cons u ts ih =>
    rw [List.cons_append]
    rcases hu : u.kind with c | c | l' | name
    · rw [isBracketed_opening hu, Bool.and_eq_true] at h ⊢
      exact ⟨h.1, ih h.2⟩
    · cases opened with
      | nil => simp [isBracketed, hu] at h
      | cons d outer =>
        simp only [isBracketed, hu, Bool.and_eq_true] at h ⊢
        exact ⟨h.1, ih h.2⟩
    · rw [isBracketed_leaf hu, Bool.and_eq_true] at h ⊢
      exact ⟨h.1, ih h.2⟩
    · simp only [isBracketed, hu, Bool.and_eq_true] at h ⊢
      exact ⟨h.1, ih h.2⟩

/-- An anchor may stand behind the children of an `inline` token. -/
theorem IsOrdered.append_anchor {children : List Token} (h : IsOrdered children) {anchor : Token}
    (hk : anchor.kind = .leaf .footnoteAnchor) (hlevel : anchor.level = none) :
    IsOrdered (children ++ [anchor]) where
  bracketed := isBracketed_concat hk hlevel h.bracketed
  merged := by
    refine List.IsChain.append h.merged (.singleton anchor) fun t _ u hu hboth => ?_
    obtain rfl : anchor = u := by simpa using hu
    simp [isText, hk] at hboth

end Children

/-- Tokens that stand inside `depth` constructs, bracketed by themselves, and the children of whose
`inline` tokens are ordered. -/
structure Stretch (depth : Nat) (tokens : List Token) : Prop where
  closed : ∀ opened rest, opened.length = depth →
    isBracketed some opened (tokens ++ rest) = isBracketed some opened rest
  ordered : ∀ t ∈ tokens, t.kind = .leaf .inline → IsOrdered t.children

namespace Stretch

variable {depth : Nat} {ts us : List Token}

theorem nil : Stretch depth [] :=
  ⟨fun _ _ _ => rfl, fun _ h => (by cases h)⟩

theorem append (ht : Stretch depth ts) (hu : Stretch depth us) : Stretch depth (ts ++ us) where
  closed opened rest h := by rw [List.append_assoc, ht.closed _ _ h, hu.closed _ _ h]
  ordered t h := (List.mem_append.1 h).elim (ht.ordered t) (hu.ordered t)

theorem flatMap {α : Type} {f : α → List Token} {xs : List α} (h : ∀ x ∈ xs, Stretch depth (f x)) :
    Stretch depth (xs.flatMap f) := by
  induction xs with
  | nil => exact nil
  | cons x xs ih =>
    exact (h x List.mem_cons_self).append (ih fun y hy => h y (List.mem_cons_of_mem _ hy))

/-- A token that stands for itself. -/
theorem leaf {t : Token} {l : Leaf} (hk : t.kind = .leaf l) (hlevel : t.level = some depth)
    (hordered : l = .inline → IsOrdered t.children) : Stretch depth [t] where
  closed opened rest h := by
    rw [List.singleton_append, isBracketed_leaf hk, hlevel, h, beq_self_eq_true, Bool.true_and]
  ordered u hu hk' := by
    obtain rfl := List.mem_singleton.1 hu
    exact hordered (by simpa using hk.symm.trans hk')

/-- What stands between the brackets of a construct is one level further in. -/
theorem bracketed {opening closing : Token} {c : Construct}
    (hopen : opening.kind = .opening c ∧ opening.level = some depth)
    (hclose : closing.kind = .closing c ∧ closing.level = some depth)
    (h : Stretch (depth + 1) ts) : Stretch depth (opening :: (ts ++ [closing])) where
  closed opened rest hopened := by
    have hinside := h.closed (c :: opened) (closing :: rest) (by simp [hopened])
    rw [List.cons_append, List.append_assoc, List.singleton_append, isBracketed_opening hopen.1,
      hinside, isBracketed_closing hclose.1, hopen.2, hclose.2, hopened, beq_self_eq_true,
      Bool.true_and, Bool.true_and]
  ordered t ht hk := by
    rcases List.mem_cons.1 ht with rfl | ht
    · cases hopen.1.symm.trans hk
    · rcases List.mem_append.1 ht with ht | ht
      · exact h.ordered t ht hk
      · obtain rfl := List.mem_singleton.1 ht
        cases hclose.1.symm.trans hk

end Stretch

section Blocks

variable (depth : Nat)

theorem stretch_inlineAt (xs : List Inline) : Stretch depth (inlineAt depth xs) :=
  .leaf rfl rfl fun _ => isOrdered_ofInlines xs

theorem stretch_paragraphAt (tight : Bool) (xs : List Inline) :
    Stretch depth (paragraphAt depth tight xs) :=
  .bracketed ⟨rfl, rfl⟩ ⟨rfl, rfl⟩ (stretch_inlineAt _ xs)

theorem stretch_rowAt (cell : Construct) (aligns : List (Option Align)) (row : List (List Inline)) :
    Stretch depth (rowAt depth cell aligns row) :=
  .bracketed ⟨rfl, rfl⟩ ⟨rfl, rfl⟩ <| .flatMap fun ⟨xs, _⟩ _ =>
    .bracketed ⟨rfl, rfl⟩ ⟨rfl, rfl⟩ (stretch_inlineAt _ xs)

/-- A table: the brackets of its body are there only if it has rows. -/
theorem stretch_tableAt (aligns : List (Option Align)) (header : List (List Inline))
    (rows : List (List (List Inline))) : Stretch depth (tableAt depth aligns header rows) := by
  refine .bracketed ⟨rfl, rfl⟩ ⟨rfl, rfl⟩ (.append ?_ ?_)
  · exact .bracketed ⟨rfl, rfl⟩ ⟨rfl, rfl⟩ (stretch_rowAt _ _ aligns header)
  · split_ifs
    · exact .nil
    · exact .bracketed ⟨rfl, rfl⟩ ⟨rfl, rfl⟩ (.flatMap fun row _ => stretch_rowAt _ _ aligns row)

mutual

theorem stretch_ofBlock (depth : Nat) (tight : Bool) :
    ∀ b : Block (List Inline), Stretch depth (ofBlock depth tight b)
  | .paragraph xs => stretch_paragraphAt depth tight xs
  | .heading _ xs => .bracketed ⟨rfl, rfl⟩ ⟨rfl, rfl⟩ (stretch_inlineAt _ xs)
  | .quote body => .bracketed ⟨rfl, rfl⟩ ⟨rfl, rfl⟩ (stretch_ofBlocks _ _ body)
  | .list _ tight items => .bracketed ⟨rfl, rfl⟩ ⟨rfl, rfl⟩ (stretch_ofItems _ tight items)
  | .fence _ _ | .indented _ | .html _ | .rule => .leaf rfl rfl (fun h => by cases h)
  | .table aligns header rows => stretch_tableAt depth aligns header rows
  | .footnote _ _ => .nil
  | .descriptions items => .bracketed ⟨rfl, rfl⟩ ⟨rfl, rfl⟩ (stretch_ofDescriptions _ items)

theorem stretch_ofBlocks (depth : Nat) (tight : Bool) :
    ∀ bs : List (Block (List Inline)), Stretch depth (ofBlocks depth tight bs)
  | [] => .nil
  | b :: bs => .append (stretch_ofBlock depth tight b) (stretch_ofBlocks depth tight bs)

theorem stretch_ofItems (depth : Nat) (tight : Bool) :
    ∀ items : List (Item (List Inline)), Stretch depth (ofItems depth tight items)
  | [] => .nil
  | .mk body :: items =>
    .append (.bracketed ⟨rfl, rfl⟩ ⟨rfl, rfl⟩ (stretch_ofBlocks _ tight body))
      (stretch_ofItems depth tight items)

theorem stretch_ofDescriptions (depth : Nat) :
    ∀ items : List (Description (List Inline)), Stretch depth (ofDescriptions depth items)
  | [] => .nil
  | .mk _ term details :: items => by
    have hdetails : Stretch depth
        (enclose depth .descriptionDetails {} (ofBlocks (depth + 1) true details)) :=
      .bracketed ⟨rfl, rfl⟩ ⟨rfl, rfl⟩ (stretch_ofBlocks _ true details)
    unfold ofDescriptions
    refine .append (.append ?_ hdetails) (stretch_ofDescriptions depth items)
    cases term with
    | none => exact .nil
    | some xs => exact .bracketed ⟨rfl, rfl⟩ ⟨rfl, rfl⟩ (stretch_paragraphAt _ true xs)

end

end Blocks

section Footnotes

theorem exists_of_anchorFirst? {anchor : Token} : ∀ {ts us : List Token},
    anchorFirst? anchor ts = some us → ∃ before t after, t.kind = .leaf .inline ∧
      ts = before ++ t :: after ∧
      us = before ++ { t with children := t.children ++ [anchor] } :: after ∧
      ∀ u ∈ before, u.kind ≠ .leaf .inline
  | [], _, h => by cases h
  | t :: ts, us, h => by
    rw [anchorFirst?] at h
    split_ifs at h with hk
    · cases h
      exact ⟨[], t, ts, beq_iff_eq.1 hk, rfl, rfl, nofun⟩
    · obtain ⟨us, hus, rfl⟩ := Option.map_eq_some_iff.1 h
      obtain ⟨before, u, after, hu, rfl, rfl, hbefore⟩ := exists_of_anchorFirst? hus
      have ht : t.kind ≠ .leaf .inline := fun he => hk (beq_iff_eq.2 he)
      exact ⟨t :: before, u, after, hu, rfl, rfl, List.forall_mem_cons.2 ⟨ht, hbefore⟩⟩

theorem isBracketed_replace (opened : List Construct) (before after : List Token) (t : Token)
    (children : List Token) :
    isBracketed some opened (before ++ { t with children } :: after) =
      isBracketed some opened (before ++ t :: after) := by
  induction before generalizing opened with
  | nil => simp only [List.nil_append, isBracketed]
  | cons u before ih => simp only [List.cons_append, isBracketed, ih]

/-- An `inline` token may get other children: how the tokens are bracketed does not depend on them. -/
theorem Stretch.replace {depth : Nat} {before after : List Token} {t : Token} {children : List Token}
    (h : Stretch depth (before ++ t :: after)) (hchildren : IsOrdered children) :
    Stretch depth (before ++ { t with children } :: after) where
  closed opened rest hopened := by
    rw [List.append_assoc, List.cons_append, isBracketed_replace, ← List.cons_append,
      ← List.append_assoc, h.closed opened rest hopened]
  ordered u hu hk := by
    rcases List.mem_append.1 hu with hu | hu
    · exact h.ordered u (List.mem_append_left _ hu) hk
    · rcases List.mem_cons.1 hu with rfl | hu
      · exact hchildren
      · exact h.ordered u (List.mem_append_right _ (List.mem_cons_of_mem _ hu)) hk

theorem stretch_withAnchor (depth id : Nat) {body : List Token} (h : Stretch depth body) :
    Stretch depth (withAnchor depth id body) := by
  unfold withAnchor
  dsimp only
  split
  · next reversed hr =>
    obtain ⟨before, t, after, hk, hts, rfl, -⟩ := exists_of_anchorFirst? hr
    have hbody : body = after.reverse ++ t :: before.reverse := by
      rw [← List.reverse_reverse body, hts]
      simp
    have ht := h.ordered t (by simp [hbody]) hk
    rw [List.reverse_append, List.reverse_cons, List.append_assoc, List.singleton_append]
    exact (hbody ▸ h).replace (ht.append_anchor rfl rfl)
  · exact h.append (.leaf rfl rfl fun h => by cases h)

theorem stretch_ofNote (depth : Nat) (note : Note) (id : Nat) :
    Stretch depth (ofNote depth note id) :=
  .bracketed ⟨rfl, rfl⟩ ⟨rfl, rfl⟩ (stretch_withAnchor _ id (stretch_ofBlocks _ true note.body))

theorem stretch_ofNotes (notes : List Note) : Stretch 0 (ofNotes notes) := by
  unfold ofNotes
  split_ifs
  · exact .nil
  · exact .bracketed ⟨rfl, rfl⟩ ⟨rfl, rfl⟩ (.flatMap fun x _ => stretch_ofNote 1 x.1 x.2)

end Footnotes

/-- The stream of a document is bracketed, its levels count the constructs around each token, and
the children of each `inline` token are bracketed with texts in a row merged. -/
theorem isBracketed_ofDocument (d : Document) :
    isBracketed some [] (ofDocument d) = true ∧
      ∀ t ∈ ofDocument d, t.kind = .leaf .inline → IsOrdered t.children := by
  have h : Stretch 0 (ofDocument d) := (stretch_ofBlocks 0 false d.body).append (stretch_ofNotes d.notes)
  have hclosed := h.closed [] [] rfl
  rw [List.append_nil] at hclosed
  exact ⟨hclosed, h.ordered⟩

end TidyMark.Token
