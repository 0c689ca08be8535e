import TidyMark.Text.Blank

/-!
# Separating collapsed references

A collapsed reference, `[label][]`, at the end of a line and a bracket at the start of a later one
would be read as one paragraph. `separate` puts a blank line between them.
-/

namespace TidyMark.Reflink

/-- The bracket that follows white space with a line feed in it, and what follows that bracket. -/
def bracketOnLaterLine? (t : Text) : Option Text :=
  match t.dropWhile isBlank with
  | '[' :: rest => if (t.takeWhile isBlank).contains '\n' then some rest else none
  | _ => none

theorem length_bracketOnLaterLine? {t rest : Text} (h : bracketOnLaterLine? t = some rest) :
    rest.length < t.length := by
  have := (List.dropWhile_suffix isBlank (l := t)).length_le
  grind [bracketOnLaterLine?]

/-- Writes one blank line between `][]` and a bracket that follows it on a later line. -/
def separate (t : Text) : Text :=
  match t with
  | ']' :: '[' :: ']' :: rest =>
    match _h : bracketOnLaterLine? rest with
    | some rest => ("][]\n\n[" : Text) ++ separate rest
    | none => ']' :: separate ('[' :: ']' :: rest)
  | c :: rest => c :: separate rest
  | [] => []
termination_by t.length
decreasing_by
  · have := length_bracketOnLaterLine? _h
    simp only [List.length_cons]
    omega
  all_goals simp

end TidyMark.Reflink
