import TidyMark.Proofs.Formation
import TidyMark.Proofs.InlineKinds
import TidyMark.Tidy

/-!
# Tokens as they are read

The tokens of inline content are of more kinds than are read from a source: raw HTML could be any
text and code could be a block. Read from a source, raw HTML begins with its less-than sign and code
is a span, wherever in the document they stand (`bears_tokenize`).
-/

namespace TidyMark

open Markdown Token

namespace Markdown

mutual

/-- Whether all raw HTML in inline content begins with a less-than sign. -/
def Inline.IsTagged : Inline → Prop
  | .html t => t.head? = some '<'
  | .text _ | .softBreak | .lineBreak | .code _ | .footnoteRef _ _ _ => True
  | .emphasis xs | .strong xs | .strikethrough xs | .superscript xs | .link _ _ xs
  | .image _ _ xs => AreTagged xs

def AreTagged : List Inline → Prop
  | [] => True
  | x :: rest => x.IsTagged ∧ AreTagged rest

end

theorem areTagged_iff {xs : List Inline} : AreTagged xs ↔ ∀ x ∈ xs, x.IsTagged := by
  induction xs with
  | nil => simp [AreTagged]
  | cons x xs ih => rw [AreTagged, ih, List.forall_mem_cons]

theorem forms_isTagged : Forms Inline.IsTagged where
  text t := by simp [Inline.IsTagged]
  delimited char n xs h := by
    unfold delimited
    split_ifs <;> simpa only [Inline.IsTagged] using areTagged_iff.2 h
  softBreak := by simp [Inline.IsTagged]
  lineBreak := by simp [Inline.IsTagged]
  code t := by simp [Inline.IsTagged]
  html t := by simp [Inline.IsTagged]
  footnoteRef name := by simp [Inline.IsTagged]
  link url title xs h := by simpa only [Inline.IsTagged] using areTagged_iff.2 h
  image url title xs h := by simpa only [Inline.IsTagged] using areTagged_iff.2 h

mutual

theorem isTagged_number : ∀ (n : Numbering) {x : Inline}, x.IsTagged → (x.number n).1.IsTagged
  | n, .footnoteRef name _ _, _ => by
    rw [Inline.number, numberReference]
    split <;> simp [Inline.IsTagged]
  | n, .emphasis _, h | n, .strong _, h | n, .strikethrough _, h | n, .superscript _, h
  | n, .link _ _ _, h | n, .image _ _ _, h => by
    rw [Inline.IsTagged] at h
    simpa only [Inline.number, Inline.IsTagged] using areTagged_numberInlines n h
  | _, .text _, h | _, .softBreak, h | _, .lineBreak, h | _, .code _, h | _, .html _, h => by
    simpa only [Inline.number] using h

theorem areTagged_numberInlines : ∀ (n : Numbering) {xs : List Inline}, AreTagged xs →
    AreTagged (numberInlines n xs).1
  | _, [], h => h
  | n, _ :: _, h => ⟨isTagged_number n h.1, areTagged_numberInlines _ h.2⟩

end

end Markdown

namespace Token

/-- What is known of a token of inline content that has been read: of what kind it is, how raw HTML
begins and that code is no block. -/
structure IsRead (t : Token) : Prop where
  isInline : t.kind.isInline = true
  tag : t.kind = .leaf .htmlTag → t.content.head? = some '<'
  span : t.kind = .leaf .code → t.block = false

theorem isRead_consText {after : List Token} (t : Text) (h : ∀ c ∈ after, c.IsRead) :
    ∀ c ∈ consText t after, c.IsRead := by
  have htext : ∀ {c : Token}, c.kind = .leaf .text → c.IsRead := fun hc =>
    ⟨by rw [hc]; rfl, by simp [hc], by simp [hc]⟩
  unfold consText
  split
  · next next rest =>
    split_ifs with hk
    · exact List.forall_mem_cons.2 ⟨htext (beq_iff_eq.1 hk), (List.forall_mem_cons.1 h).2⟩
    · exact List.forall_mem_cons.2 ⟨htext rfl, h⟩
  · exact List.forall_mem_cons.2 ⟨htext rfl, nofun⟩

mutual

theorem isRead_ofInline {after : List Token} (h : ∀ c ∈ after, c.IsRead) :
    ∀ {x : Inline}, x.IsTagged → ∀ c ∈ ofInline after x, c.IsRead
  | .text t, _ => isRead_consText t h
  | .html t, hx => by
    rw [Inline.IsTagged] at hx
    exact List.forall_mem_cons.2 ⟨⟨rfl, fun _ => hx, nofun⟩, h⟩
  | .code _, _ => List.forall_mem_cons.2 ⟨⟨rfl, nofun, fun _ => rfl⟩, h⟩
  | .softBreak, _ | .lineBreak, _ | .superscript _, _ | .image _ _ _, _ | .footnoteRef _ _ _, _ =>
    List.forall_mem_cons.2 ⟨⟨rfl, nofun, nofun⟩, h⟩
  | .emphasis _, hx | .strong _, hx | .strikethrough _, hx | .link _ _ _, hx => by
    rw [Inline.IsTagged] at hx
    refine List.forall_mem_cons.2 ⟨⟨rfl, nofun, nofun⟩,
      isRead_ofInlines (List.forall_mem_cons.2 ⟨?_, h⟩) hx⟩
    exact ⟨rfl, nofun, nofun⟩

theorem isRead_ofInlines {after : List Token} (h : ∀ c ∈ after, c.IsRead) :
    ∀ {xs : List Inline}, AreTagged xs → ∀ c ∈ ofInlines after xs, c.IsRead
  | [], _ => h
  | x :: xs, hx => by
    rw [ofInlines]
    exact isRead_ofInline (isRead_ofInlines h hx.2) hx.1

end

/-- All inline content of a source is as it has been read. -/
theorem bears_tokenize (source : Text) : ∀ t ∈ tokenize source, t.Bears IsRead := by
  refine bears_ofDocument (fun _ => ⟨rfl, nofun, nofun⟩) ?_
  have htagged := forall_contents_ofText (p := AreTagged) areTagged_numberInlines
    (fun defs t => areTagged_iff.2 (forall_ofText forms_isTagged defs t)) source
  exact fun xs hxs => @isRead_ofInlines [] nofun xs (htagged xs hxs)

end Token

end TidyMark
