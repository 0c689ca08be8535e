import TidyMark.Proofs.Openers
import TidyMark.Proofs.Writable

/-!
# Escapes undone

An escaped text without its escapes is the text (`unescape_escapeFrom`), as long as what the start of
a line escapes is a character that a backslash can stand before. The delimiter of an ordinal is one,
but it is looked for as many characters behind the start as the digits have bytes. Behind digits of
other scripts another character stands there, and if that is no punctuation, the backslash before it
is one more character of the text (`unescape_escapeFrom_misplaced`).
-/

namespace TidyMark.Escape

open Markdown

/-- Whether a backslash at this place is one that neither escapes a character nor is escaped. -/
def IsStray (t : Text) (place : Nat) : Prop :=
  ∃ u c v, t = u ++ c :: v ∧ u.length = place ∧ isAsciiPunctuation c = false ∧
    u.getLast? ≠ some '\\'

/-- Whether the delimiter of an ordinal is looked for where a backslash is stray. -/
def IsMisplaced (t : Text) : Prop :=
  ∃ digits, BeginsOrdinal t digits ∧ IsStray t (Text.byteLength digits)

section Undoing

variable {start : Start} {place : Nat} {before : Option Char} {c : Char} {t u v : Text}

theorem isAsciiPunctuation_of_opensBlock (h : opensBlock (c :: t) = true) :
    isAsciiPunctuation c = true := by
  unfold opensBlock at h
  dsimp only at h
  split at h <;> simp_all <;> rfl

theorem isAsciiPunctuation_of_mem_escapable (h : c ∈ escapable) : isAsciiPunctuation c = true := by
  have hmarks : escapable = ['\\', '`', '*', '_', '[', '<'] := rfl
  simp only [hmarks, List.mem_cons, List.not_mem_nil, or_false] at h
  rcases h with rfl | rfl | rfl | rfl | rfl | rfl <;> rfl

theorem isAsciiPunctuation_of_needsEscape (h : needsEscape start place before c t = true)
    (hstart : start.escapes place = true → isAsciiPunctuation c = true) :
    isAsciiPunctuation c = true := by
  by_cases hc : c ∈ escapable
  · exact isAsciiPunctuation_of_mem_escapable hc
  · rw [needsEscape_start hc] at h
    exact hstart h

/-- A character that no backslash escapes stays as it is, unless it is taken for a delimiter. -/
theorem needsEscape_of_not_isAsciiPunctuation (hc : isAsciiPunctuation c = false) :
    needsEscape start place before c t = start.escapes place :=
  needsEscape_start fun h => Bool.false_ne_true (hc ▸ isAsciiPunctuation_of_mem_escapable h)

/-- One character is written so that undoing the escapes gives it back, and goes on behind it. A
backslash that stays as it is must not come to stand before the escape of the next character. -/
theorem unescape_escapeFrom_cons
    (hc : start.escapes place = true → isAsciiPunctuation c = true)
    (hnext : c = '\\' → ∀ d ∈ t.head?, start.escapes (place + 1) = true →
      isAsciiPunctuation d = true) :
    unescape (escapeFrom start place before (c :: t)) =
      c :: unescape (escapeFrom start (place + 1) (some c) t) := by
  rw [escapeFrom]
  split_ifs with hneeds
  · exact unescape_escape (isAsciiPunctuation_of_needsEscape hneeds hc) _
  · refine unescape_cons ?_
    by_cases hback : c = '\\'
    · subst hback
      rcases t with _ | ⟨d, t⟩
      · exact absurd rfl hneeds
      · have hd : isAsciiPunctuation d = false := Bool.eq_false_iff.2 hneeds
        have hbare : start.escapes (place + 1) = false := Bool.eq_false_iff.2 fun h =>
          Bool.false_ne_true (hd ▸ hnext rfl d rfl h)
        rw [escapeFrom, needsEscape_of_not_isAsciiPunctuation hd, hbare]
        exact hd
    · simp [escapesNext, hback]

/-- Undoing the escapes gives the text back if all that the start of the line escapes can be
escaped. -/
theorem unescape_escapeFrom
    (h : ∀ i c, t[i]? = some c → start.escapes (place + i) = true → isAsciiPunctuation c = true) :
    unescape (escapeFrom start place before t) = t := by
  induction t generalizing place before with
  | nil => rfl
  | cons c t ih =>
    have hc : start.escapes place = true → isAsciiPunctuation c = true := h 0 c rfl
    have hnext : ∀ d ∈ t.head?, start.escapes (place + 1) = true → isAsciiPunctuation d = true :=
      fun d hd => h 1 d (by simpa [List.head?_eq_getElem?] using hd)
    have hrest : unescape (escapeFrom start (place + 1) (some c) t) = t :=
      ih fun i d hd hescapes => h (i + 1) d hd (by rwa [Nat.add_right_comm] at hescapes)
    rw [unescape_escapeFrom_cons hc fun _ => hnext, hrest]

theorem escapes_ordinal_iff {p : Nat} : (Start.ordinal p).escapes place = true ↔ p = place :=
  beq_iff_eq

/-- A backslash before a character that it does not escape stays, unless one stands before it, which
it is then the escape of. -/
theorem unescape_escapeFrom_misplaced (hc : isAsciiPunctuation c = false) :
    unescape (escapeFrom (.ordinal (place + u.length)) place before (u ++ c :: v)) =
      if u.getLast? = some '\\' then u ++ c :: v else u ++ '\\' :: c :: v := by
  have hback : c ≠ '\\' := by
    rintro rfl
    cases hc
  have hescape : ∀ place before, escapeFrom (.ordinal place) place before (c :: v) =
      '\\' :: c :: escapeFrom (.ordinal place) (place + 1) (some c) v := fun place before => by
    rw [escapeFrom, needsEscape_of_not_isAsciiPunctuation hc, if_pos (escapes_ordinal_iff.2 rfl)]
  have hrest : ∀ place, unescape (c :: escapeFrom (.ordinal place) (place + 1) (some c) v) =
      c :: v := fun place => by
    rw [unescape_cons (by simp [escapesNext, hback]), unescape_escapeFrom]
    intro i d _ hd
    have := escapes_ordinal_iff.1 hd
    omega
  induction u generalizing place before with
  | nil =>
    rw [List.nil_append, List.length_nil, Nat.add_zero, hescape,
      unescape_cons (by simpa [escapesNext] using hc), hrest]
    rfl
  | cons d u ih =>
    have hplace : place + (d :: u).length = place + 1 + u.length := by
      rw [List.length_cons]
      omega
    rw [hplace, List.cons_append]
    by_cases hd : u = [] ∧ d = '\\'
    · obtain ⟨rfl, rfl⟩ := hd
      have hbare : needsEscape (.ordinal (place + 1)) place before '\\' (c :: v) = false := hc
      rw [List.length_nil, Nat.add_zero, List.nil_append, escapeFrom, hbare, hescape]
      exact (unescape_escape rfl _).trans (congrArg _ (hrest (place + 1)))
    · have hfirst : (Start.ordinal (place + 1 + u.length)).escapes place ≠ true := fun h => by
        have := escapes_ordinal_iff.1 h
        omega
      have hsecond : d = '\\' →
          (Start.ordinal (place + 1 + u.length)).escapes (place + 1) ≠ true := fun he h => by
        have := escapes_ordinal_iff.1 h
        exact hd ⟨List.length_eq_zero_iff.1 (by omega), he⟩
      have hlast : (d :: u).getLast? = some '\\' ↔ u.getLast? = some '\\' := by
        rcases u with _ | ⟨e, u⟩
        · simpa using hd
        · rw [List.getLast?_cons_cons]
      rw [unescape_escapeFrom_cons (absurd · hfirst) fun he e _ h => absurd h (hsecond he), ih]
      simp only [hlast]
      split_ifs <;> rfl

theorem unescape_escapeFrom_ordinal_iff :
    unescape (escapeFrom (.ordinal place) 0 none t) = t ↔ ¬ IsStray t place := by
  constructor
  · rintro h ⟨u, c, v, rfl, rfl, hc, hlast⟩
    have hextra := @unescape_escapeFrom_misplaced 0 none c u v hc
    rw [Nat.zero_add, if_neg hlast, h] at hextra
    simpa using congrArg List.length hextra
  · intro h
    by_cases hfits : ∀ c, t[place]? = some c → isAsciiPunctuation c = true
    · refine unescape_escapeFrom fun i c hc hescapes => hfits c ?_
      rwa [escapes_ordinal_iff.1 hescapes, Nat.zero_add]
    · push Not at hfits
      obtain ⟨c, hplace, hc⟩ := hfits
      obtain ⟨hlt, rfl⟩ := List.getElem?_eq_some_iff.1 hplace
      have hsplit : t = t.take place ++ t[place] :: t.drop (place + 1) := by
        rw [List.getElem_cons_drop, List.take_append_drop]
      have hlength : (t.take place).length = place := List.length_take_of_le hlt.le
      have hword : isAsciiPunctuation t[place] = false := Bool.eq_false_iff.2 hc
      have hlast : (t.take place).getLast? = some '\\' := by
        by_contra hlast
        exact h ⟨_, _, _, hsplit, hlength, hword, hlast⟩
      have hkept := @unescape_escapeFrom_misplaced 0 none _ (t.take place) (t.drop (place + 1)) hword
      rwa [if_pos hlast, Nat.zero_add, hlength, ← hsplit] at hkept

end Undoing

/-- Undoing the escapes of an escaped text gives the text, unless it begins a line and a backslash
has been misplaced in it. -/
theorem unescape_escape_eq_self_iff (lineStart : Bool) (t : Text) :
    unescape (escape lineStart t) = t ↔ ¬ (lineStart = true ∧ IsMisplaced t) := by
  cases lineStart with
  | false =>
    refine iff_of_true ?_ fun h => Bool.false_ne_true h.1
    exact unescape_escapeFrom fun _ _ _ hescapes => absurd hescapes Bool.false_ne_true
  | true =>
    rw [escape, if_pos rfl, Start.ofLine]
    split
    · next place hplace =>
      obtain ⟨digits, hordinal, rfl⟩ := ordinalPlace?_eq_some_iff.1 hplace
      rw [unescape_escapeFrom_ordinal_iff, not_iff_not]
      constructor
      · exact fun h => ⟨rfl, digits, hordinal, h⟩
      · rintro ⟨-, digits', hordinal', h⟩
        have hplace' := ordinalPlace?_eq_some_iff.2 ⟨digits', hordinal', rfl⟩
        rwa [Option.some.inj (hplace.symm.trans hplace')]
    · next hplace =>
      have hbare : ¬ IsMisplaced t := by
        rintro ⟨digits, hordinal, -⟩
        rw [ordinalPlace?_eq_some_iff.2 ⟨digits, hordinal, rfl⟩] at hplace
        cases hplace
      refine iff_of_true ?_ fun h => hbare h.2
      split_ifs with hopens
      · rcases t with _ | ⟨c, t⟩
        · rfl
        refine unescape_escapeFrom fun i d hd hescapes => ?_
        obtain rfl : i = 0 := by simpa [Start.escapes] using hescapes
        obtain rfl : c = d := by simpa using hd
        exact isAsciiPunctuation_of_opensBlock hopens
      · exact unescape_escapeFrom fun _ _ _ hescapes => absurd hescapes Bool.false_ne_true

/-- The delimiter behind a digit of two bytes is looked for one character too far. -/
theorem not_forall_unescape_escape :
    ¬ ∀ (lineStart : Bool) (t : Text), unescape (escape lineStart t) = t := by
  intro h
  have hdigit := h true "١. x"
  revert hdigit
  decide +kernel

end TidyMark.Escape
