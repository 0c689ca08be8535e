import TidyMark.Proofs.Literal
import TidyMark.Proofs.Rounds

/-!
# What escaping covers

Escaping looks at a character, at the characters beside it and, for a bracket, at the next closing
one. It does not look for character references, mail addresses, tildes and carets, nor for brackets
inside others. `Covers` says of a text that it holds nothing of this kind that would be read. The
scans for it pass over other characters (`delimiters_cons`, `misreadsBracket_cons`), and judge runs
of delimiters by what stands beside them in the text, which is the same when the text is escaped
(`flank_inLine`).
-/

namespace TidyMark

open Markdown

namespace Escape

/-- A text inside a line as it is escaped behind a character. -/
def inLine (before : Option Char) (t : Text) : Text :=
  escapeFrom .plain 0 before t

/-- Whether a character that stays as it is behind `before` is read as more than text. -/
def isMisread (before : Option Char) (c : Char) (after : Text) : Bool :=
  match c with
  | '&' => (entity? (inLine (some c) after)).isSome
  | '<' => (autolinkMail? (inLine (some c) after)).isSome
  | '_' =>
    let run := Run.read c 1 before.toList after
    run.canOpen || run.canClose
  | _ => false

/-- Whether a reference, a mail address or an underscore is read where nothing is escaped. -/
def misreads (before : Option Char) : Text → Bool
  | [] => false
  | c :: rest =>
    !needsEscape .plain 0 before c rest && isMisread before c rest || misreads (some c) rest

/-- Whether a closing bracket ends an inline link that begins before another bracket, or a footnote
reference inside another one. For each open bracket it is known whether it may begin such a
reference. -/
def misreadsBracket (notes : List Bool) : Text → Bool
  | [] => false
  | c :: rest =>
    if c == '[' && !opensLink rest then misreadsBracket ((rest.head? == some '^') :: notes) rest
    else if c == ']' then
      !notes.isEmpty && rest.head? == some '(' ||
        notes.head? == some true && notes.tail.contains true || misreadsBracket notes.tail rest
    else misreadsBracket notes rest

/-- Whether a character delimits a deletion or, outside brackets, a superscript. -/
def isDelimiter (inBrackets : Bool) (c : Char) : Bool :=
  c == '~' || c == '^' && !inBrackets

/-- The runs of tildes and carets that can open or close something in a text behind `before`, which
is given in reverse. -/
def delimiters (inBrackets : Bool) (before : Text) : Text → List Run
  | [] => []
  | c :: rest =>
    let run := Run.read c ((rest.takeWhile (· == c)).length + 1) before (rest.dropWhile (· == c))
    let here :=
      if isDelimiter inBrackets c && before.head? != some c then run.piece.run?.toList else []
    let inBrackets :=
      if c == '[' then inBrackets || !opensLink rest else inBrackets && c != ']'
    here ++ delimiters inBrackets (c :: before) rest

/-- What makes escaping cover all that a text holds. Tildes, carets and ampersands are never
escaped, a bracket only before the end of a link that it would begin. -/
structure Covers (t : Text) : Prop where
  reads : misreads none t = false
  brackets : misreadsBracket [] t = false
  delimiters : (delimiters false [] t).Pairwise Run.Apart

instance (t : Text) : Decidable (Covers t) :=
  decidable_of_iff (misreads none t = false ∧ misreadsBracket [] t = false ∧
      (delimiters false [] t).Pairwise Run.Apart)
    ⟨fun h => ⟨h.1, h.2.1, h.2.2⟩, fun h => ⟨h.1, h.2, h.3⟩⟩

section Escaping

variable {before : Option Char} {c d : Char} {t w rest : Text}

theorem escapeFrom_place : ∀ (place place' : Nat) (before : Option Char) (t : Text),
    escapeFrom .plain place before t = escapeFrom .plain place' before t
  | _, _, _, [] => rfl
  | place, place', before, c :: t => by
    rw [escapeFrom, escapeFrom, escapeFrom_place (place + 1) (place' + 1)]
    rfl

theorem inLine_cons (before : Option Char) (c : Char) (t : Text) : inLine before (c :: t) =
    (if needsEscape .plain 0 before c t then ['\\', c] else [c]) ++ inLine (some c) t := by
  rw [inLine, escapeFrom, escapeFrom_place (0 + 1) 0]
  split_ifs <;> rfl

/-- The characters that are escaped inside a line. -/
def escapable : Text :=
  "\\`*_[<"

theorem mem_escapable (h : needsEscape .plain 0 before c t = true) : c ∈ escapable := by
  by_contra hc
  have hmarks : escapable = ['\\', '`', '*', '_', '[', '<'] := rfl
  simp only [hmarks, List.mem_cons, List.not_mem_nil, or_false, not_or] at hc
  obtain ⟨h1, h2, h3, h4, h5, h6⟩ := hc
  simp [needsEscape, h1, h2, h3, h4, h5, h6, Start.escapes] at h

theorem needsEscape_eq_false (h : c ∉ escapable) : needsEscape .plain 0 before c t = false :=
  Bool.eq_false_iff.2 fun hn => h (mem_escapable hn)

theorem inLine_cons_of_not (h : needsEscape .plain 0 before c t = false) :
    inLine before (c :: t) = c :: inLine (some c) t := by
  rw [inLine_cons, h]
  rfl

/-- Characters that are never escaped stand as they are. -/
theorem inLine_append (done : Text) (h : ∀ c ∈ w, c ∉ escapable) (rest : Text) :
    inLine done.head? (w ++ rest) = w ++ inLine (w.reverse ++ done).head? rest := by
  induction w generalizing done with
  | nil => rfl
  | cons c w ih =>
    have ih := ih (c :: done) fun d hd => h d (List.mem_cons_of_mem c hd)
    rw [List.cons_append, inLine_cons_of_not (needsEscape_eq_false (h c List.mem_cons_self)),
      ← List.head?_cons (l := done), ih]
    simp

/-- A text begins as it did when it is escaped, or with a backslash before a mark. -/
theorem head?_inLine (before : Option Char) (t : Text) :
    (inLine before t).head? = t.head? ∨
      (inLine before t).head? = some '\\' ∧ ∃ c ∈ t.head?, c ∈ escapable := by
  rcases t with _ | ⟨c, t⟩
  · exact .inl rfl
  · rw [inLine_cons]
    split_ifs with h
    · exact .inr ⟨rfl, c, rfl, mem_escapable h⟩
    · exact .inl rfl

theorem head?_inLine_ne (hd : d ≠ '\\') (h : t.head? ≠ some d) (before : Option Char) :
    (inLine before t).head? ≠ some d := by
  rcases head?_inLine before t with he | ⟨he, -⟩
  · rwa [he]
  · rw [he]
    exact fun hs => hd (Option.some.inj hs).symm

end Escaping

section Scanning

variable {inBrackets : Bool} {notes : List Bool} {done : Text} {c : Char} {w rest : Text}

theorem misreads_append (done : Text) (h : misreads done.head? (w ++ rest) = false) :
    misreads (w.reverse ++ done).head? rest = false := by
  induction w generalizing done with
  | nil => exact h
  | cons c w ih =>
    rw [List.cons_append, misreads, Bool.or_eq_false_iff, ← List.head?_cons (l := done)] at h
    simpa using ih (c :: done) h.2

/-- A character that neither delimits nor opens or closes a bracket leaves the scan as it is. -/
theorem delimiters_cons (hd : isDelimiter inBrackets c = false) (hclose : c ≠ ']')
    (hopen : c = '[' → opensLink rest = true) :
    delimiters inBrackets done (c :: rest) = delimiters inBrackets (c :: done) rest := by
  have hne : (c != ']') = true := bne_iff_ne.2 hclose
  rw [delimiters, hd]
  by_cases hc : c = '['
  · simp [hc, hopen hc]
  · simp [hc, hne]

theorem misreadsBracket_cons (hclose : c ≠ ']') (hopen : c = '[' → opensLink rest = true) :
    misreadsBracket notes (c :: rest) = misreadsBracket notes rest := by
  rw [misreadsBracket]
  by_cases hc : c = '['
  · simp [hc, hopen hc]
  · simp [hc, hclose]

theorem delimiters_append (h : ∀ c ∈ w, isDelimiter inBrackets c = false ∧ c ≠ '[' ∧ c ≠ ']') :
    delimiters inBrackets done (w ++ rest) = delimiters inBrackets (w.reverse ++ done) rest := by
  induction w generalizing done with
  | nil => rfl
  | cons c w ih =>
    obtain ⟨hd, hopen, hclose⟩ := h c List.mem_cons_self
    rw [List.cons_append, delimiters_cons hd hclose fun hc => absurd hc hopen,
      ih fun d hd => h d (List.mem_cons_of_mem c hd)]
    simp

theorem misreadsBracket_append (h : ∀ c ∈ w, c ≠ '[' ∧ c ≠ ']') :
    misreadsBracket notes (w ++ rest) = misreadsBracket notes rest := by
  induction w with
  | nil => rfl
  | cons c w ih =>
    obtain ⟨hopen, hclose⟩ := h c List.mem_cons_self
    rw [List.cons_append, misreadsBracket_cons hclose fun hc => absurd hc hopen,
      ih fun d hd => h d (List.mem_cons_of_mem c hd)]

theorem ne_bracket_of_isDelimiter (hc : isDelimiter inBrackets c = true) : c ≠ '[' ∧ c ≠ ']' := by
  constructor <;> rintro rfl <;> cases inBrackets <;> cases hc

/-- Behind the first delimiter of a run nothing begins before the run ends. -/
theorem delimiters_replicate (hc : isDelimiter inBrackets c = true) : ∀ (n : Nat) (done : Text),
    delimiters inBrackets (c :: done) (List.replicate n c ++ rest) =
      delimiters inBrackets (List.replicate n c ++ c :: done) rest
  | 0, done => rfl
  | n + 1, done => by
    have hb := ne_bracket_of_isDelimiter hc
    have ih := delimiters_replicate hc n (c :: done)
    rw [List.replicate_succ, List.cons_append, delimiters]
    simp only [List.head?_cons, bne_self_eq_false, Bool.and_false, Bool.false_eq_true, if_false,
      beq_eq_false_iff_ne.2 hb.1, bne_iff_ne.2 hb.2, Bool.and_true, List.nil_append]
    rw [ih, ← List.replicate_succ, List.replicate_succ', List.append_assoc, List.cons_append,
      List.nil_append]

theorem delimiters_run (hc : isDelimiter inBrackets c = true) (hfresh : done.head? ≠ some c)
    {n : Nat} (hrest : rest.head? ≠ some c) :
    delimiters inBrackets done (c :: (List.replicate n c ++ rest)) =
      (Run.read c (n + 1) done rest).piece.run?.toList ++
        delimiters inBrackets (List.replicate n c ++ c :: done) rest := by
  have hb := ne_bracket_of_isDelimiter hc
  have hne : (c != ']') = true := bne_iff_ne.2 hb.2
  rw [delimiters, takeWhile_replicate_append n hrest, dropWhile_replicate_append n hrest,
    ← delimiters_replicate hc]
  simp [hc, hfresh, hb.1, hne]

end Scanning

end Escape

namespace Markdown

open Escape

section Flanks

theorem flank_cons {c : Char} (hc : c ≠ '~') (t : Text) : flank (c :: t) = c := by
  simp [flank, hc]

theorem flank_append {s t : Text} (h : flank s = flank t) : ∀ u : Text,
    flank (u ++ s) = flank (u ++ t)
  | [] => h
  | c :: u => by
    by_cases hc : c = '~'
    · subst hc
      exact flank_append h u
    · rw [List.cons_append, List.cons_append, flank_cons hc, flank_cons hc]

/-- What follows a run is judged alike when it is escaped: a mark and a backslash are both
punctuation. -/
theorem flank_inLine : ∀ (before : Option Char) (t : Text),
    isBlank (flank (inLine before t)) = isBlank (flank t) ∧
      isPunctuation (flank (inLine before t)) = isPunctuation (flank t)
  | before, [] => ⟨rfl, rfl⟩
  | before, c :: t => by
    by_cases hc : c = '~'
    · subst hc
      rw [inLine_cons_of_not (needsEscape_eq_false (by decide))]
      exact flank_inLine (some '~') t
    · rw [inLine_cons, flank_cons hc]
      split_ifs with h
      · have hmarks : escapable.all (fun c => !isBlank c && isPunctuation c) = true := by decide
        have hmark := List.all_eq_true.1 hmarks c (mem_escapable h)
        simp only [Bool.and_eq_true, Bool.not_eq_true'] at hmark
        rw [List.cons_append, flank_cons (by decide), hmark.1, hmark.2]
        decide
      · rw [List.cons_append, flank_cons hc]
        exact ⟨rfl, rfl⟩

theorem read_inLine {before done : Text} (h : flank before = flank done) (c : Char) (n : Nat)
    (prev : Option Char) (t : Text) :
    Run.read c n before (inLine prev t) = Run.read c n done t := by
  obtain ⟨hblank, hmark⟩ := flank_inLine prev t
  unfold Run.read
  simp only [h, hblank, hmark]

end Flanks

end Markdown

end TidyMark
