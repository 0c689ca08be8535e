import Mathlib.Data.List.Chain
import TidyMark.Proofs.BlockApart

/-!
# The lines of a quote

A quote has a line for each line of its body that shows something, in order, and between two of
them one line with the mark alone where the body has blank lines (`IsQuoted`). What is read off is
`quoteLines`, which every line that shows something cuts in two (`quoteLines_append`); the trimming
before it takes blank lines only off the two ends of the body (`exists_splitLines_quote`).
-/

namespace TidyMark

open Text

namespace Text

variable {t : Text} {c : Char}

theorem join_newline_cons (l : Text) (ls : List Text) :
    join "\n" (l :: ls) = l ++ ls.flatMap ('\n' :: ·) := by
  induction ls generalizing l with
  | nil => exact (List.append_nil l).symm
  | cons l' ls ih =>
    rw [join, ih, List.flatMap_cons, List.append_assoc]
    rfl

theorem splitLines_join {lines : List Text} (hne : lines ≠ []) (h : ∀ l ∈ lines, '\n' ∉ l) :
    splitLines (join "\n" lines) = lines := by
  obtain ⟨l, ls, rfl⟩ := List.exists_cons_of_ne_nil hne
  obtain ⟨hl, hls⟩ := List.forall_mem_cons.1 h
  rw [join_newline_cons, splitLines_append_flatMap hl hls]

theorem lines_of_not_mem (hn : '\n' ∉ t) (hne : t ≠ []) : lines t = [t] := by
  rw [lines, splitLines_of_not_mem hn]
  rcases t with _ | ⟨c, t⟩
  · exact absurd rfl hne
  · rfl

/-- Line feeds at the beginning are blank lines. -/
theorem exists_lines_eq_replicate (t : Text) :
    ∃ n, lines t = List.replicate n [] ++ lines (t.dropWhile (· == '\n')) := by
  induction t with
  | nil => exact ⟨0, rfl⟩
  | cons c t ih =>
    by_cases hc : c = '\n'
    · subst hc
      obtain ⟨n, hn⟩ := ih
      have hlines := lines_append_newline [] t
      rw [List.nil_append, hn] at hlines
      exact ⟨n + 1, hlines⟩
    · rw [List.dropWhile_cons_of_neg (by simpa using hc)]
      exact ⟨0, rfl⟩

/-- The last line of a text shows something if the last character does. -/
theorem exists_lines_eq_concat {t : Text} (hlast : t.getLast? = some c) (hc : isBlank c = false) :
    ∃ front last, lines t = front ++ [last] ∧ last.allBlank = false := by
  by_cases hn : '\n' ∈ t
  · obtain ⟨s, u, rfl, -⟩ := List.eq_append_cons_of_mem hn
    have hu : u ≠ [] := by
      rintro rfl
      rw [List.getLast?_concat] at hlast
      rw [← Option.some.inj hlast] at hc
      cases hc
    rw [List.getLast?_append_cons, List.getLast?_cons_of_ne_nil hu] at hlast
    have hshorter : u.length < (s ++ '\n' :: u).length := by
      simp only [List.length_append, List.length_cons]
      omega
    obtain ⟨front, last, hlines, hshows⟩ := exists_lines_eq_concat hlast hc
    refine ⟨(splitLines s).map dropReturn ++ front, last, ?_, hshows⟩
    rw [lines_append_newline, hlines, List.append_assoc]
  · have hmem := List.mem_of_getLast? hlast
    refine ⟨[], t, lines_of_not_mem hn (List.ne_nil_of_mem hmem), ?_⟩
    exact List.all_eq_false.2 ⟨c, hmem, by simp [hc]⟩
termination_by t.length

end Text

namespace Render

/-- What a line of a quote shows; the mark alone shows nothing. -/
def shown? : Text → Option Text
  | '>' :: ' ' :: line => some line
  | _ => none

/-- Whether these are the lines that are written for a text in a quote. -/
structure IsQuoted (body : Text) (quoted : List Text) : Prop where
  line : ∀ q ∈ quoted, q = ['>'] ∨ ∃ l : Text, l.allBlank = false ∧ q = "> " ++ l
  /-- No two lines with the mark alone follow each other. -/
  single : quoted.IsChain fun q r => ¬(q = ['>'] ∧ r = ['>'])
  last : quoted.getLast? ≠ some ['>']
  /-- The lines that show something are those of the text, in the same order. -/
  shown : quoted.filterMap shown? = (lines body.trimEnd).filter fun l => !l.allBlank
  /-- Between two of them there is one with the mark alone if there are blank lines in the text. -/
  between : ∀ (front blanks back : List Text) (l l' : Text),
    lines body.trimEnd = front ++ l :: (blanks ++ l' :: back) → l.allBlank = false →
      l'.allBlank = false → (∀ b ∈ blanks, b.allBlank = true) →
        ∃ front' back' : List Text, quoted = front' ++ ("> " ++ l) ::
            ((if blanks = [] then [] else [['>']]) ++ ("> " ++ l') :: back') ∧
          front'.filterMap shown? = front.filter (fun l => !l.allBlank) ∧
          back'.filterMap shown? = back.filter fun l => !l.allBlank

section Lines

variable {ls blanks : List Text} {l : Text} {b : Bool}

theorem quoteLines_blank (hl : l.allBlank = true) : quoteLines b (l :: ls) =
    if b then quoteLines true ls else ['>'] :: quoteLines true ls := by
  rw [quoteLines, if_pos hl]

theorem quoteLines_shows (hl : l.allBlank = false) :
    quoteLines b (l :: ls) = ("> " ++ l) :: quoteLines false ls := by
  rw [quoteLines, if_neg (by simp [hl])]

theorem quoteLines_true_of_blank (h : ∀ b ∈ blanks, b.allBlank = true) :
    quoteLines true blanks = [] := by
  induction blanks with
  | nil => rfl
  | cons l blanks ih =>
    obtain ⟨hl, hblanks⟩ := List.forall_mem_cons.1 h
    rw [quoteLines_blank hl, if_pos rfl, ih hblanks]

/-- Blank lines in a row are written as one. -/
theorem quoteLines_false_of_blank (h : ∀ b ∈ blanks, b.allBlank = true) :
    quoteLines false blanks = if blanks = [] then [] else [['>']] := by
  rcases blanks with _ | ⟨l, blanks⟩
  · rfl
  · obtain ⟨hl, hblanks⟩ := List.forall_mem_cons.1 h
    rw [quoteLines_blank hl, quoteLines_true_of_blank hblanks]
    rfl

theorem of_mem_quoteLines {q : Text} : ∀ {ls : List Text} {b : Bool}, q ∈ quoteLines b ls →
    q = ['>'] ∨ ∃ l : Text, l.allBlank = false ∧ q = "> " ++ l
  | l :: ls, b, h => by
    cases hl : l.allBlank with
    | true =>
      rw [quoteLines_blank hl] at h
      split_ifs at h
      · exact of_mem_quoteLines h
      · exact (List.mem_cons.1 h).elim .inl of_mem_quoteLines
    | false =>
      rw [quoteLines_shows hl] at h
      exact (List.mem_cons.1 h).elim (fun hq => .inr ⟨l, hl, hq⟩) of_mem_quoteLines

theorem isChain_quoteLines (ls : List Text) :
    (quoteLines false ls).IsChain (fun q r => ¬(q = ['>'] ∧ r = ['>'])) ∧
      (['>'] :: quoteLines true ls).IsChain fun q r => ¬(q = ['>'] ∧ r = ['>']) := by
  induction ls with
  | nil => exact ⟨.nil, .singleton _⟩
  | cons l ls ih =>
    cases hl : l.allBlank with
    | true =>
      rw [quoteLines_blank hl, quoteLines_blank hl]
      exact ⟨ih.2, ih.2⟩
    | false =>
      have hmark : "> " ++ l ≠ ['>'] := by simp
      rw [quoteLines_shows hl, quoteLines_shows hl]
      have hchain := List.isChain_cons.2 ⟨fun r _ h => hmark h.1, ih.1⟩
      exact ⟨hchain, List.isChain_cons.2 ⟨fun r hr h => hmark (h.2 ▸ (Option.some.inj hr)), hchain⟩⟩

theorem filterMap_quoteLines (ls : List Text) : ∀ b : Bool,
    (quoteLines b ls).filterMap shown? = ls.filter fun l => !l.allBlank := by
  induction ls with
  | nil => exact fun _ => rfl
  | cons l ls ih =>
    intro b
    cases hl : l.allBlank with
    | true =>
      rw [quoteLines_blank hl, List.filter_cons_of_neg (by simp [hl])]
      split_ifs
      · exact ih true
      · exact ih true
    | false =>
      rw [quoteLines_shows hl, List.filter_cons_of_pos (by simp [hl]), ← ih false]
      rfl

end Lines

section Quote

variable {body : Text}

theorem exists_getLast?_trimEnd (h : body.allBlank = false) :
    ∃ c, body.trimEnd.getLast? = some c ∧ isBlank c = false := by
  have hne : body.rdropWhile isBlank ≠ [] := fun hnil => by
    rw [List.rdropWhile_eq_nil_iff, ← List.all_eq_true] at hnil
    rw [allBlank, hnil] at h
    cases h
  refine ⟨_, List.getLast?_eq_some_getLast hne, ?_⟩
  simpa using List.rdropWhile_last_not isBlank body hne

/-- The lines of a quote are written for the lines of its body, some blank lines at its beginning
left out, and the last of them shows something. -/
theorem exists_splitLines_quote (h : body.allBlank = false) : ∃ n front last,
    lines body.trimEnd = List.replicate n [] ++ (front ++ [last]) ∧ last.allBlank = false ∧
      splitLines (quote body) = quoteLines false (front ++ [last]) := by
  obtain ⟨c, hlast, hc⟩ := exists_getLast?_trimEnd h
  obtain ⟨n, hlines⟩ := exists_lines_eq_replicate body.trimEnd
  have hsplit := List.takeWhile_append_dropWhile (p := (· == '\n')) (l := body.trimEnd)
  have hne : body.trimEnd.dropWhile (· == '\n') ≠ [] := fun hnil => by
    have hn := List.dropWhile_eq_nil_iff.1 hnil c (List.mem_of_getLast? hlast)
    rw [eq_of_beq hn] at hc
    cases hc
  rw [← hsplit, List.getLast?_append_of_ne_nil _ hne] at hlast
  obtain ⟨front, last, hconcat, hshows⟩ := exists_lines_eq_concat hlast hc
  refine ⟨n, front, last, hlines.trans (congrArg _ hconcat), hshows, ?_⟩
  rw [quote, ← hconcat]
  refine splitLines_join ?_ fun l hl =>
    (head?_of_mem_quoteLines (fun _ hm => newline_not_mem_of_mem_lines hm) hl).1
  rw [hconcat, quoteLines_append hshows]
  exact List.append_ne_nil_of_right_ne_nil _ (List.cons_ne_nil _ _)

/-- A line that shows something stands behind the blank lines at the beginning. -/
theorem exists_of_replicate_append {n : Nat} {ls front back : List Text} {l : Text}
    (h : List.replicate n [] ++ ls = front ++ l :: back) (hl : l.allBlank = false) :
    ∃ front', front = List.replicate n [] ++ front' ∧ ls = front' ++ l :: back := by
  rcases List.append_eq_append_iff.1 h with ⟨front', hfront, hls⟩ | ⟨blanks, hreplicate, hl'⟩
  · exact ⟨front', hfront, hls⟩
  · rcases blanks with _ | ⟨b, blanks⟩
    · exact ⟨[], by simpa using hreplicate.symm, hl'.symm⟩
    · obtain ⟨rfl, -⟩ := List.cons.inj hl'
      have hmem : l ∈ List.replicate n ([] : Text) := by simp [hreplicate]
      rw [List.eq_of_mem_replicate hmem] at hl
      cases hl

theorem isQuoted_quote (h : body.allBlank = false) : IsQuoted body (splitLines (quote body)) := by
  obtain ⟨n, ls, last, hlines, hlast, hquote⟩ := exists_splitLines_quote h
  rw [hquote]
  refine ⟨fun q => of_mem_quoteLines, (isChain_quoteLines _).1, ?_, ?_, ?_⟩
  · rw [quoteLines_append hlast, quoteLines, List.getLast?_concat]
    simp
  · rw [filterMap_quoteLines, hlines, List.filter_append]
    simp [allBlank]
  · intro front blanks back l l' hsplit hl hl' hblanks
    rw [hlines] at hsplit
    obtain ⟨front, rfl, hls⟩ := exists_of_replicate_append hsplit hl
    refine ⟨quoteLines false front, quoteLines false back, ?_, ?_, ?_⟩
    · rw [hls, quoteLines_append hl, quoteLines_append hl', quoteLines_false_of_blank hblanks]
    · rw [filterMap_quoteLines, List.filter_append]
      simp [allBlank]
    · exact filterMap_quoteLines back false

theorem quote_of_allBlank (h : body.allBlank = true) : quote body = [] := by
  have htrim : body.trimEnd = [] :=
    List.rdropWhile_eq_nil_iff.2 (List.all_eq_true.1 h)
  rw [quote, htrim]
  rfl

/-- When a quote ends, what stands behind its start is put back line by line, and nothing if nothing
shows in it. -/
theorem closeQuote?_lines {canvas : Canvas} {before body : Text} {start : Nat} {quotes : List Nat}
    (hquotes : canvas.quotes = start :: quotes) (hout : canvas.out = before ++ body)
    (hcut : min start canvas.out.byteLength = before.byteLength) :
    canvas.closeQuote? = some { canvas with out := before ++ quote body, quotes } ∧
      if body.allBlank then quote body = [] else IsQuoted body (splitLines (quote body)) := by
  constructor
  · unfold Canvas.closeQuote?
    rw [hquotes]
    dsimp only
    rw [Canvas.changeFrom?, hcut, hout, splitAtByte?_append]
    rfl
  · split_ifs with h
    · exact quote_of_allBlank h
    · exact isQuoted_quote (by simpa using h)

/-- A quote in a quote, with carriage returns and white space of other kinds in it. -/
theorem closeQuote?_lines_nested :
    Canvas.closeQuote? ⟨"é\n\n a\r\n \r\n\n> b\u2003\n", [], [2]⟩ =
        some ⟨"é" ++ quote "\n\n a\r\n \r\n\n> b\u2003\n", [], []⟩ ∧
      if Text.allBlank "\n\n a\r\n \r\n\n> b\u2003\n" then
        quote "\n\n a\r\n \r\n\n> b\u2003\n" = []
      else IsQuoted "\n\n a\r\n \r\n\n> b\u2003\n"
        (splitLines (quote "\n\n a\r\n \r\n\n> b\u2003\n")) :=
  @closeQuote?_lines ⟨"é\n\n a\r\n \r\n\n> b\u2003\n", [], [2]⟩ "é"
    "\n\n a\r\n \r\n\n> b\u2003\n" 2 [] rfl rfl (by decide)

example : quote "\n\n a\r\n \r\n\n> b\u2003\n" = ">  a\n>\n> > b".toList := by decide +kernel

end Quote

end Render

end TidyMark
