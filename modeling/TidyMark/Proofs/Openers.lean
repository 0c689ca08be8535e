import TidyMark.Proofs.Bytes
import TidyMark.Proofs.Cover
import TidyMark.Proofs.ItemMarkers
import TidyMark.Proofs.Unlinked
import TidyMark.Proofs.Word

/-!
# Openers of blocks that are escaped

A text at the start of a line is escaped so that the line begins no block. What begins one is said
here by the readers of the parser (`beginsBlock`), and the escaped text is held against each of
them. A reader that took the escaped text took it without a backslash, so it took the same
characters of the text itself (`exists_of_escapeFrom`), and those are what the first character or
the delimiter of an ordinal is escaped for.

A thematic break of dashes is escaped only if white space follows the first dash, or if all its
dashes stand together. Where two dashes stand together and another stands apart, the break is
written as it is (`escape_of_isPartedRule`).
-/

namespace TidyMark

open Markdown

namespace Markdown

/-- Whether a text begins with the marker of a list item and with white space, or nothing, behind
it. -/
def beginsItem (t : Text) : Bool :=
  match listMarker? false t with
  | some (_, length) => Reflink.endsMarker (t.drop length)
  | none => false

/-- Whether what follows the indentation of a line begins a heading, a quote, a list item or a
fence, or is an underline or a thematic break. -/
def beginsMark (t : Text) : Bool :=
  (numberSigns? t).isSome || t.head? == some '>' || beginsItem t || (underline? t).isSome ||
    isRule t || (fence? t).isSome

/-- Whether a line begins one of these blocks. -/
def beginsBlock (line : Text) : Bool :=
  let c : Cursor := { rest := line }
  c.indent < 4 && beginsMark c.content

/-- Whether a line is a thematic break of dashes, of which the first two stand together and not all
do. -/
def isPartedRule (t : Text) : Bool :=
  isRule t && t.take 2 == ['-', '-'] && !(t.dropWhile (· == '-')).all isIndent

section Readers

variable {c : Char} {t : Text}

theorem beginsBlock_cons (hc : isBlank c = false) : beginsBlock (c :: t) = beginsMark (c :: t) := by
  simp [beginsBlock, content_cons hc, indent_cons hc]

theorem numberSigns?_isSome_iff : (numberSigns? t).isSome = true ↔ t.head? = some '#' ∧
    runLength '#' t ≤ 6 ∧ Escape.endsOpener (t.dropWhile (· == '#')) = true := by
  have hone : 1 ≤ runLength '#' t ↔ t.head? = some '#' := by
    rcases t with _ | ⟨c, t⟩
    · simp [runLength]
    · by_cases hc : c = '#' <;> simp [runLength, hc]
  unfold numberSigns?
  dsimp only
  rw [runLength, drop_length_takeWhile, ← runLength]
  split_ifs with h
  · simpa [Escape.endsOpener, hone, and_assoc] using h
  · simpa [Escape.endsOpener, hone, and_assoc] using h

/-- An item begins with a bullet, or with nine digits at most and a delimiter. -/
theorem exists_of_beginsItem (h : beginsItem t = true) :
    (∃ c ∈ ['*', '-', '+'], ∃ rest, t = c :: rest ∧ Escape.endsOpener rest = true) ∨
      ∃ digits d rest, t = digits ++ d :: rest ∧ digits ≠ [] ∧ digits.length ≤ 9 ∧
        (∀ c ∈ digits, c.isDigit = true) ∧ d ∈ ['.', ')'] ∧ Escape.endsOpener rest = true := by
  unfold beginsItem at h
  split at h
  · next marker length hmarker =>
    unfold listMarker? at hmarker
    split at hmarker
    · cases hmarker
    next c rest =>
    dsimp only at hmarker
    split_ifs at hmarker with hbullet
    · cases hmarker
      exact .inl ⟨c, by simpa [or_assoc] using hbullet, rest, rfl, h⟩
    split at hmarker
    · next d after hdrop =>
      split_ifs at hmarker with hordinal
      cases hmarker
      simp only [Bool.and_eq_true, Bool.not_eq_true', List.isEmpty_eq_false_iff] at hordinal
      have hinitial : ((c :: rest).takeWhile Char.isDigit).take 9 <+: c :: rest :=
        (List.take_prefix _ _).trans (List.takeWhile_prefix _)
      refine .inr ⟨_, d, after, ?_, hordinal.1.1.1, List.length_take_le _ _, ?_, ?_, ?_⟩
      · rw [← hdrop]
        exact (List.prefix_iff_eq_append.1 hinitial).symm
      · exact fun c hc => List.mem_takeWhile_imp (List.mem_of_mem_take hc)
      · simpa using hordinal.1.1.2
      · rwa [← List.drop_drop, hdrop] at h
    · cases hmarker
  · cases h

end Readers

end Markdown

namespace Escape

/-- Whether a text begins like an item of an ordered list, with these digits. -/
def BeginsOrdinal (t digits : Text) : Prop :=
  ∃ d rest, t = digits ++ d :: rest ∧ 1 ≤ digits.length ∧ digits.length ≤ 9 ∧
    (∀ c ∈ digits, isDigit c = true) ∧ (d = '.' ∨ d = ')') ∧ endsOpener rest = true

section Bare

variable {start : Start} {place : Nat} {before : Option Char} {c : Char} {t m w : Text}

/-- What begins with another character than a backslash has not been escaped there. -/
theorem exists_of_escapeFrom_cons (h : escapeFrom start place before t = c :: w) (hc : c ≠ '\\') :
    ∃ rest, t = c :: rest ∧ w = escapeFrom start (place + 1) (some c) rest ∧
      needsEscape start place before c rest = false := by
  rcases t with _ | ⟨d, rest⟩
  · cases h
  · rw [escapeFrom] at h
    split_ifs at h with hneeds
    · exact absurd (List.cons.inj h).1.symm hc
    · obtain ⟨rfl, rfl⟩ := List.cons.inj h
      exact ⟨rest, rfl, rfl, Bool.eq_false_iff.2 hneeds⟩

theorem exists_of_escapeFrom (hm : '\\' ∉ m) (h : escapeFrom start place before t = m ++ w) :
    ∃ before' rest, t = m ++ rest ∧ w = escapeFrom start (place + m.length) before' rest := by
  induction m generalizing place before t with
  | nil => exact ⟨before, t, rfl, h.symm⟩
  | cons c m ih =>
    obtain ⟨hc, hm⟩ := not_or.1 (List.mem_cons.not.1 hm)
    obtain ⟨rest, rfl, hw, -⟩ := exists_of_escapeFrom_cons h (Ne.symm hc)
    obtain ⟨before', rest', rfl, rfl⟩ := ih hm hw.symm
    exact ⟨before', rest', rfl, by rw [List.length_cons, Nat.add_assoc, Nat.add_comm 1]⟩

theorem escapeFrom_eq_self (h : '\\' ∉ escapeFrom start place before t) :
    escapeFrom start place before t = t := by
  obtain ⟨before', rest, ht, hw⟩ := exists_of_escapeFrom h (List.append_nil _).symm
  rcases rest with _ | ⟨c, rest⟩
  · rw [List.append_nil] at ht
    exact ht.symm
  · rw [escapeFrom] at hw
    split_ifs at hw

theorem endsOpener_of_escapeFrom (h : endsOpener (escapeFrom start place before t) = true) :
    endsOpener t = true := by
  rcases t with _ | ⟨c, t⟩
  · rfl
  · rw [escapeFrom] at h
    split_ifs at h
    · cases h
    · exact h

theorem all_isIndent_of_escapeFrom (h : (escapeFrom start place before t).all isIndent = true) :
    t.all isIndent = true := by
  rwa [escapeFrom_eq_self] at h
  exact fun hmem => absurd (List.all_eq_true.1 h _ hmem) (by decide)

end Bare

section Plain

variable {before : Option Char} {c : Char} {t : Text}

/-- A run of characters that are not escaped is as long as it was, and what stands behind it is
still escaped behind it. -/
theorem run_inLine (hc : c ∉ escapable) (before : Option Char) (t : Text) :
    (inLine before t).takeWhile (· == c) = t.takeWhile (· == c) ∧
      ∃ before', (inLine before t).dropWhile (· == c) = inLine before' (t.dropWhile (· == c)) := by
  induction t generalizing before with
  | nil => exact ⟨rfl, before, rfl⟩
  | cons d t ih =>
    by_cases hd : d = c
    · subst hd
      obtain ⟨htake, before', hdrop⟩ := ih (some d)
      rw [inLine_cons_of_not (needsEscape_eq_false hc)]
      exact ⟨by simp [htake], before', by simpa using hdrop⟩
    · have hself : (d :: t).head? ≠ some c := by simpa using hd
      have hstop := head?_inLine_ne (fun h => hc (by rw [h]; decide)) hself before
      have htake :=
        (takeWhile_replicate_append 0 hstop).trans (takeWhile_replicate_append 0 hself).symm
      have hdrop := dropWhile_replicate_append 0 hstop
      have hrest := dropWhile_replicate_append 0 hself
      simp only [List.replicate_zero, List.nil_append] at htake hdrop hrest
      exact ⟨htake, before, by rw [hdrop, hrest]⟩

end Plain

section LineStart

variable {c : Char} {t w : Text}

theorem needsEscape_mark (hc : c ∈ ['`', '*', '_']) (start : Start) (place : Nat) (after : Text) :
    needsEscape start place none c after = true := by
  fin_cases hc <;> rfl

theorem needsEscape_start {start : Start} {place : Nat} {before : Option Char} {after : Text}
    (hc : c ∉ escapable) : needsEscape start place before c after = start.escapes place := by
  have hmarks : escapable = ['\\', '`', '*', '_', '[', '<'] := rfl
  simp only [hmarks, List.mem_cons, List.not_mem_nil, or_false, not_or] at hc
  obtain ⟨h1, h2, h3, h4, h5, h6⟩ := hc
  simp [needsEscape, h1, h2, h3, h4, h5, h6]

theorem ordinalPlace?_cons (hc : isDigit c = false) : ordinalPlace? (c :: t) = none := by
  simp [ordinalPlace?, hc]

/-- A line that begins as it did, and not with a digit, opens nothing. -/
theorem exists_of_escape_eq_cons (h : escape true t = c :: w) (hc : c ∉ escapable)
    (hdigit : isDigit c = false) :
    ∃ rest, t = c :: rest ∧ opensBlock t = false ∧ escape true t = inLine none t := by
  have hback : c ≠ '\\' := fun hb => hc (by rw [hb]; decide)
  obtain ⟨rest, rfl, -, hneeds⟩ := exists_of_escapeFrom_cons h hback
  have hstart : Start.ofLine (c :: rest) =
      if opensBlock (c :: rest) then .opener else .plain := by
    rw [Start.ofLine, ordinalPlace?_cons hdigit]
  rw [if_pos rfl, needsEscape_start hc, hstart] at hneeds
  cases hopens : opensBlock (c :: rest) with
  | true =>
    rw [hopens] at hneeds
    cases hneeds
  | false =>
    rw [escape, if_pos rfl, hstart, hopens]
    exact ⟨rest, rfl, rfl, rfl⟩

theorem numberSigns?_escape (t : Text) : numberSigns? (escape true t) = none := by
  by_contra hsome
  obtain ⟨hhead, hlevel, hends⟩ :=
    numberSigns?_isSome_iff.1 (Option.isSome_iff_ne_none.2 hsome)
  obtain ⟨w, hw⟩ := List.head?_eq_some_iff.1 hhead
  obtain ⟨rest, rfl, hopens, hplain⟩ := exists_of_escape_eq_cons hw (by decide) (by decide)
  obtain ⟨htake, before, hdrop⟩ := run_inLine (c := '#') (by decide) none ('#' :: rest)
  rw [hplain, hdrop] at hends
  rw [hplain, runLength, htake] at hlevel
  simp only [opensBlock, Bool.and_eq_false_iff, decide_eq_false_iff_not] at hopens
  rcases hopens with hlong | hmore
  · exact hlong hlevel
  · exact Bool.eq_false_iff.1 hmore (endsOpener_of_escapeFrom hends)

theorem head?_escape_ne_quote (t : Text) : (escape true t).head? ≠ some '>' := fun hhead => by
  obtain ⟨w, hw⟩ := List.head?_eq_some_iff.1 hhead
  obtain ⟨rest, rfl, hopens, -⟩ := exists_of_escape_eq_cons hw (by decide) (by decide)
  cases hopens

theorem not_underlines (hc : c ∈ ['=', '-']) (hhead : (escape true t).head? = some c) :
    ((escape true t).dropWhile (· == c)).all isIndent = false := by
  have hcc : c ∉ escapable ∧ isDigit c = false := by fin_cases hc <;> decide
  obtain ⟨w, hw⟩ := List.head?_eq_some_iff.1 hhead
  obtain ⟨rest, rfl, hopens, hplain⟩ := exists_of_escape_eq_cons hw hcc.1 hcc.2
  obtain ⟨-, before, hdrop⟩ := run_inLine hcc.1 none (c :: rest)
  have hbare : ((c :: rest).dropWhile (· == c)).all isIndent = false := by
    fin_cases hc
    · exact hopens
    · exact (Bool.or_eq_false_iff.1 hopens).2
  rw [hplain, hdrop]
  exact Bool.eq_false_iff.2 fun hall => Bool.eq_false_iff.1 hbare (all_isIndent_of_escapeFrom hall)

theorem underline?_escape (t : Text) : underline? (escape true t) = none := by
  have hequals := not_underlines (c := '=') (t := t) (by decide)
  have hdash := not_underlines (c := '-') (t := t) (by decide)
  simp only [underline?, Bool.and_eq_true, beq_iff_eq]
  split_ifs with h1 h2
  · rw [hequals h1.1] at h1
    cases h1.2
  · rw [hdash h2.1] at h2
    cases h2.2
  · rfl

theorem fence?_escape (t : Text) : fence? (escape true t) = none := by
  unfold fence?
  split
  · next w hw =>
    obtain ⟨rest, -, -, hneeds⟩ := exists_of_escapeFrom_cons hw (by decide)
    cases hneeds
  · next w hw =>
    obtain ⟨rest, rfl, hopens, hplain⟩ := exists_of_escape_eq_cons hw (by decide) (by decide)
    have htake := (run_inLine (c := '~') (by decide) none ('~' :: rest)).1
    have hshort : ¬3 ≤ runLength '~' ('~' :: w) := by
      rw [← hw, hplain, runLength, htake]
      simpa [opensBlock] using hopens
    rw [hw]
    exact if_neg hshort
  · rfl

theorem endsOpener_bullet (hc : c ∈ ['*', '-', '+']) (hw : escape true t = c :: w) :
    endsOpener w = false := by
  have hstar : c = '*' ∨ (c = '-' ∨ c = '+') ∧ c ∉ escapable ∧ isDigit c = false := by
    fin_cases hc <;> decide
  rcases hstar with rfl | ⟨hsign, hbare, hdigit⟩
  · obtain ⟨rest, -, -, hneeds⟩ := exists_of_escapeFrom_cons hw (by decide)
    cases hneeds
  · obtain ⟨rest, rfl, hopens, hplain⟩ := exists_of_escape_eq_cons hw hbare hdigit
    rw [hplain, inLine_cons_of_not (needsEscape_eq_false hbare)] at hw
    obtain ⟨-, rfl⟩ := List.cons.inj hw
    have hrest : endsOpener rest = false := by
      rcases hsign with rfl | rfl
      · exact (Bool.or_eq_false_iff.1 hopens).1
      · exact hopens
    exact Bool.eq_false_iff.2 fun hends =>
      Bool.eq_false_iff.1 hrest (endsOpener_of_escapeFrom hends)

theorem ordinalPlace?_eq_some_iff {place : Nat} : ordinalPlace? t = some place ↔
    ∃ digits, BeginsOrdinal t digits ∧ Text.byteLength digits = place := by
  constructor
  · intro h
    unfold ordinalPlace? at h
    dsimp only at h
    split at h
    · next d rest hdrop =>
      split_ifs at h with hd
      simp only [Bool.and_eq_true, Bool.or_eq_true, decide_eq_true_eq, beq_iff_eq] at hd
      obtain ⟨⟨⟨hpos, hle⟩, hdelim⟩, hends⟩ := hd
      refine ⟨t.takeWhile isDigit, ⟨d, rest, ?_, hpos, hle, ?_, hdelim, hends⟩, Option.some.inj h⟩
      · rw [← hdrop, List.takeWhile_append_dropWhile]
      · exact fun c hc => List.mem_takeWhile_imp hc
    · cases h
  · rintro ⟨digits, ⟨d, rest, rfl, hpos, hle, hall, hdelim, hends⟩, rfl⟩
    have hd : isDigit d = false ∧ (d == '.' || d == ')') = true := by
      rcases hdelim with rfl | rfl <;> decide
    have htake : (digits ++ d :: rest).takeWhile isDigit = digits := by
      simp [List.takeWhile_append_of_pos hall, hd.1]
    have hdrop : (digits ++ d :: rest).dropWhile isDigit = d :: rest := by
      simp [List.dropWhile_append_of_pos hall, hd.1]
    unfold ordinalPlace?
    simp only [htake, hdrop, hd.2, hends, hpos, hle]
    rfl

theorem ordinalPlace?_digits {digits rest : Text} (hne : digits ≠ [])
    (hlength : digits.length ≤ 9) (hdigits : ∀ e ∈ digits, e.isDigit = true)
    (hc : c ∈ ['.', ')']) (hends : endsOpener rest = true) :
    ordinalPlace? (digits ++ c :: rest) = some digits.length := by
  have hall : ∀ e ∈ digits, isDigit e = true := fun e he =>
    Render.isDigit_of_charIsDigit (hdigits e he)
  have hpos : 1 ≤ digits.length := List.length_pos_iff.2 hne
  have hbytes : Text.byteLength digits = digits.length :=
    Text.byteLength_of_ascii fun e he => Render.toNat_of_charIsDigit (hdigits e he)
  exact ordinalPlace?_eq_some_iff.2
    ⟨digits, ⟨c, rest, rfl, hpos, hlength, hall, by simpa using hc, hends⟩, hbytes⟩

/-- A delimiter with white space behind it is what an ordinal is escaped for. -/
theorem not_ordinal {digits : Text} {d : Char} (hne : digits ≠ []) (hlength : digits.length ≤ 9)
    (hdigits : ∀ e ∈ digits, e.isDigit = true) (hd : d ∈ ['.', ')'])
    (hw : escape true t = digits ++ d :: w) : endsOpener w = false := by
  refine Bool.eq_false_iff.2 fun hends => ?_
  have hback : '\\' ∉ digits := fun hmem => absurd (hdigits _ hmem) (by decide)
  have hdelim : d ≠ '\\' ∧ d ∉ escapable := by fin_cases hd <;> decide
  obtain ⟨before, after, ht, hafter⟩ := exists_of_escapeFrom hback hw
  obtain ⟨rest, rfl, rfl, hneeds⟩ := exists_of_escapeFrom_cons hafter.symm hdelim.1
  have hstart := ordinalPlace?_digits hne hlength hdigits hd (endsOpener_of_escapeFrom hends)
  rw [needsEscape_start hdelim.2, if_pos rfl, ht, Start.ofLine, hstart] at hneeds
  simp [Start.escapes] at hneeds

theorem beginsItem_escape (t : Text) : beginsItem (escape true t) = false := by
  refine Bool.eq_false_iff.2 fun h => ?_
  rcases exists_of_beginsItem h with
    ⟨c, hc, w, hw, hends⟩ | ⟨digits, d, w, hw, hne, hlength, hdigits, hd, hends⟩
  · rw [endsOpener_bullet hc hw] at hends
    cases hends
  · rw [not_ordinal hne hlength hdigits hd hw] at hends
    cases hends

theorem exists_of_isRule (h : isRule t = true) :
    ∃ c ∈ ['*', '_', '-'], ∃ rest, t = c :: rest ∧ ∀ e ∈ rest, e = c ∨ isIndent e = true := by
  rcases t with _ | ⟨c, rest⟩
  · cases h
  · simp only [isRule, Bool.and_eq_true, Bool.or_eq_true, beq_iff_eq, List.all_eq_true] at h
    exact ⟨c, by simpa [or_assoc] using h.1.1, rest, rfl,
      fun e he => h.1.2 e (List.mem_cons_of_mem c he)⟩

/-- A break holds no backslash, so what is read as one has been one before. -/
theorem escape_eq_self_of_isRule (h : isRule (escape true t) = true) : escape true t = t := by
  obtain ⟨c, hc, w, hw, hall⟩ := exists_of_isRule h
  refine escapeFrom_eq_self fun hmem => ?_
  have hmem : '\\' ∈ c :: w := hw ▸ hmem
  have hback : '\\' ≠ c := by fin_cases hc <;> decide
  rcases hall _ ((List.mem_cons.1 hmem).resolve_left hback) with rfl | hindent
  · exact hback rfl
  · cases hindent

theorem escape_of_isPartedRule (h : isPartedRule t = true) : escape true t = t := by
  simp only [isPartedRule, Bool.and_eq_true, Bool.not_eq_true'] at h
  obtain ⟨⟨hrule, hstart⟩, hparted⟩ := h
  obtain ⟨rest, rfl⟩ : ∃ rest, t = '-' :: '-' :: rest := by
    rcases t with _ | ⟨c, _ | ⟨d, rest⟩⟩
    · cases hstart
    · simp at hstart
    · obtain ⟨rfl, rfl⟩ : c = '-' ∧ d = '-' := by simpa using hstart
      exact ⟨rest, rfl⟩
  have hopens : opensBlock ('-' :: '-' :: rest) = false := hparted
  have hbare : ∀ e ∈ '-' :: '-' :: rest, e ∉ escapable := by
    obtain ⟨c, -, w, hw, hall⟩ := exists_of_isRule hrule
    obtain ⟨rfl, rfl⟩ := List.cons.inj hw
    refine List.forall_mem_cons.2 ⟨by decide, fun e he hesc => ?_⟩
    rcases hall e he with rfl | hindent
    · exact absurd hesc (by decide)
    · simp only [isIndent, Bool.or_eq_true, beq_iff_eq] at hindent
      rcases hindent with rfl | rfl
      · exact absurd hesc (by decide)
      · exact absurd hesc (by decide)
  have hplain := inLine_append [] hbare []
  rw [List.append_nil] at hplain
  rw [escape, if_pos rfl, Start.ofLine, ordinalPlace?_cons (by decide), hopens]
  simpa [inLine, escapeFrom] using hplain

/-- Of the thematic breaks, those are still read whose first two dashes keep them from being
escaped. -/
theorem isRule_escape (t : Text) : isRule (escape true t) = isPartedRule t := by
  rw [Bool.eq_iff_iff]
  constructor
  · intro h
    have hself := escape_eq_self_of_isRule h
    obtain ⟨c, hc, w, hw, hall⟩ := exists_of_isRule h
    have hdash : c = '-' := by
      by_contra hne
      have hmark : c ∈ ['`', '*', '_'] ∧ c ≠ '\\' := by fin_cases hc <;> simp at hne ⊢
      obtain ⟨rest, -, -, hneeds⟩ := exists_of_escapeFrom_cons hw hmark.2
      rw [needsEscape_mark hmark.1] at hneeds
      cases hneeds
    subst hdash
    have hends := endsOpener_bullet (by decide) hw
    have hparted := not_underlines (t := t) (c := '-') (by decide) (by rw [hw]; rfl)
    rw [hself] at h hw hparted
    obtain ⟨d, w, rfl⟩ : ∃ d w', w = d :: w' := by
      refine List.exists_cons_of_ne_nil fun hnil => ?_
      rw [hnil] at hends
      cases hends
    have hd : d = '-' := (hall d List.mem_cons_self).resolve_right (Bool.eq_false_iff.1 hends)
    rw [isPartedRule, h, hparted, hw, hd]
    rfl
  · intro h
    rw [escape_of_isPartedRule h]
    simp only [isPartedRule, Bool.and_eq_true] at h
    exact h.1.1

end LineStart

end Escape

namespace Markdown

open Escape

section Escaped

variable {t : Text}

theorem beginsMark_escape (t : Text) : beginsMark (escape true t) = isPartedRule t := by
  rw [beginsMark, numberSigns?_escape, beginsItem_escape, underline?_escape, fence?_escape,
    isRule_escape, beq_eq_false_iff_ne.2 (head?_escape_ne_quote t)]
  simp

/-- An escaped line begins no block unless it has been a parted thematic break. -/
theorem beginsBlock_escape (h : ∀ c ∈ t.head?, isBlank c = false) :
    beginsBlock (escape true t) = isPartedRule t := by
  rw [← beginsMark_escape]
  rcases t with _ | ⟨c, rest⟩
  · rfl
  · rw [escape, if_pos rfl, escapeFrom]
    split_ifs
    · exact beginsBlock_cons (by decide)
    · exact beginsBlock_cons (h c rfl)

theorem beginsBlock_escape_spaced :
    (∀ c ∈ ("- - -" : Text).head?, isBlank c = false) ∧
      beginsBlock (escape true "- - -") = isPartedRule "- - -" :=
  have hdash : ∀ c ∈ ("- - -" : Text).head?, isBlank c = false := by
    rintro c ⟨⟩
    rfl
  ⟨hdash, beginsBlock_escape hdash⟩

theorem not_forall_beginsBlock_escape :
    ¬∀ t : Text, '\n' ∉ t → (∀ c ∈ t.head?, isBlank c = false) →
      (∀ c ∈ t.getLast?, isBlank c = false) → beginsBlock (escape true t) = false := by
  intro h
  have hparted : beginsBlock (escape true "-- -") = true := by decide
  have hdash : isBlank '-' = false := rfl
  refine Bool.eq_false_iff.1 (h "-- -" (by decide) ?_ ?_) hparted
  · rintro c ⟨⟩
    exact hdash
  · rintro c ⟨⟩
    exact hdash

end Escaped

end Markdown

end TidyMark
