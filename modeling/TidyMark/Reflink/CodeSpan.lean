import TidyMark.Text.Basic

/-!
# Code spans of a line

A run of backticks opens a code span that ends with the next run of the same length. A run that no
later run of its length answers opens nothing. Places are counted in characters from the start of
the line.
-/

namespace TidyMark.Reflink

/-- From the first character of a span to past its last one. -/
structure Span where
  start : Nat
  stop : Nat
deriving DecidableEq

/-- Whether a span and the stretch from `start` to `stop` have a character in common. -/
def Span.meets (s : Span) (start stop : Nat) : Bool :=
  start < s.stop && s.start < stop

/-- Looks for the end of the next run of exactly `width` backticks, when `run` backticks stand
directly before the text. Returns the place after that run and the text there. -/
def closingRun? (width run place : Nat) : Text → Option (Nat × Text)
  | [] => if run == width then some (place, []) else none
  | c :: rest =>
    if c == '`' then closingRun? width (run + 1) (place + 1) rest
    else if run == width then some (place, c :: rest)
    else closingRun? width 0 (place + 1) rest

theorem length_closingRun? {width run place : Nat} {t : Text} {p : Nat} {rest : Text}
    (h : closingRun? width run place t = some (p, rest)) : rest.length ≤ t.length := by
  induction t generalizing run place with
  | nil => grind [closingRun?]
  | cons c t ih =>
    simp only [closingRun?] at h
    split at h
    · exact Nat.le_trans (ih h) (by simp)
    · split at h
      · grind
      · exact Nat.le_trans (ih h) (by simp)

/-- The code spans of a text that begins at `place`. -/
def codeSpansFrom (place : Nat) (t : Text) : List Span :=
  match t with
  | [] => []
  | c :: rest =>
    if c == '`' then
      let opened := place + (rest.takeWhile (· == '`')).length + 1
      match _h : closingRun? (opened - place) 0 opened (rest.dropWhile (· == '`')) with
      | some (stop, tail) => ⟨place, stop⟩ :: codeSpansFrom stop tail
      | none => codeSpansFrom opened (rest.dropWhile (· == '`'))
    else codeSpansFrom (place + 1) rest
termination_by t.length
decreasing_by
  · have := length_closingRun? _h
    have := (List.dropWhile_suffix (· == '`') (l := rest)).length_le
    simp only [List.length_cons]
    omega
  · have := (List.dropWhile_suffix (· == '`') (l := rest)).length_le
    simp only [List.length_cons]
    omega
  · simp

/-- The code spans of a line, from left to right. -/
def codeSpans (line : Text) : List Span :=
  codeSpansFrom 0 line

end TidyMark.Reflink
