import TidyMark.Text.Basic

/-!
# Bracketed references

The written forms of a reference: `[label]`, `[label][]` and `[label][reference]`, each perhaps
after an exclamation mark and before a fragment in braces. `Bracket.read?` reads the form that a
text begins with and `Bracket.written` writes it down, so that a line is cut into brackets and
other characters without loss (`written_segments`).
-/

namespace TidyMark.Reflink

/-- A reference as it is written. -/
structure Bracket where
  image : Bool
  label : Text
  /-- What stands in the second pair of brackets, if there is one. -/
  reference : Option Text
  /-- What stands in braces after the brackets, its `#` or `/` included. -/
  fragment : Option Text
deriving DecidableEq

def between (opening : Char) (t : Text) (closing : Char) : Text :=
  opening :: t ++ [closing]

/-- The exclamation mark and the first brackets. -/
def Bracket.head (b : Bracket) : Text :=
  (if b.image then ['!'] else []) ++ between '[' b.label ']'

def Bracket.written (b : Bracket) : Text :=
  b.head ++ (b.reference.elim [] fun r => between '[' r ']') ++
    (b.fragment.elim [] fun f => between '\x7b' f '\x7d')

/-- Reads a label up to its closing bracket. Brackets may stand inside, but not in each other;
`inner` tells whether one is open. -/
def label? (inner : Bool) : Text → Option (Text × Text)
  | [] => none
  | c :: rest =>
    let more (inner : Bool) := (label? inner rest).map fun (label, rest) => (c :: label, rest)
    if c == '\n' then none
    else if c == '[' then if inner then none else more true
    else if c == ']' then if inner then more false else some ([], rest)
    else more inner

/-- Reads up to `close`, unless a character that `stop` refuses comes before it. -/
def upTo? (close : Char) (stop : Char → Bool) : Text → Option (Text × Text)
  | [] => none
  | c :: rest =>
    if c == close then some ([], rest)
    else if stop c then none
    else (upTo? close stop rest).map fun (t, rest) => (c :: t, rest)

/-- Reads a second pair of brackets, which holds no brackets. -/
def reference? : Text → Option (Text × Text)
  | '[' :: rest => upTo? ']' (fun c => c == '[' || c == '\n') rest
  | _ => none

/-- Reads a fragment in braces: `#` or `/` and anything but a closing brace. -/
def fragment? : Text → Option (Text × Text)
  | '\x7b' :: c :: rest =>
    if c == '#' || c == '/' then upTo? '\x7d' (· == '\n') (c :: rest) else none
  | _ => none

/-- The result of a reader that may find nothing and then leaves the text as it is. -/
def optional (read? : Text → Option (Text × Text)) (t : Text) : Option Text × Text :=
  match read? t with
  | some (found, rest) => (some found, rest)
  | none => (none, t)

/-- Reads what follows the first opening bracket. -/
def Bracket.after? (image : Bool) (t : Text) : Option (Bracket × Text) :=
  match label? false t with
  | none | some ([], _) => none
  | some (c :: label, rest) =>
    let (reference, rest) := optional reference? rest
    let (fragment, rest) := optional fragment? rest
    some (⟨image, c :: label, reference, fragment⟩, rest)

/-- Reads the reference that a text begins with. -/
def Bracket.read? : Text → Option (Bracket × Text)
  | '!' :: '[' :: rest => Bracket.after? true rest
  | '[' :: rest => Bracket.after? false rest
  | _ => none

theorem eq_cons_of_map_cons {c : Char} {found : Option (Text × Text)} {t rest : Text}
    (h : found.map (fun (t, rest) => (c :: t, rest)) = some (t, rest)) :
    ∃ u, found = some (u, rest) ∧ t = c :: u := by
  obtain ⟨⟨u, r⟩, hu, he⟩ := Option.map_eq_some_iff.1 h
  simp only [Prod.mk.injEq] at he
  exact ⟨u, by simp [hu, he.2], he.1.symm⟩

theorem label?_eq {inner : Bool} {t label rest : Text} (h : label? inner t = some (label, rest)) :
    label ++ ']' :: rest = t := by
  induction t generalizing inner label with
  | nil => simp [label?] at h
  | cons c t ih =>
    have more {inner : Bool}
        (h : (label? inner t).map (fun (l, r) => (c :: l, r)) = some (label, rest)) :
        label ++ ']' :: rest = c :: t := by
      obtain ⟨u, hu, rfl⟩ := eq_cons_of_map_cons h
      simp [ih hu]
    simp only [label?] at h
    split at h
    · simp at h
    · split at h
      · split at h
        · simp at h
        · exact more h
      · split at h
        · next hc =>
          split at h
          · exact more h
          · simp_all
        · exact more h

theorem upTo?_eq {close : Char} {stop : Char → Bool} {t found rest : Text}
    (h : upTo? close stop t = some (found, rest)) : found ++ close :: rest = t := by
  induction t generalizing found with
  | nil => simp [upTo?] at h
  | cons c t ih =>
    simp only [upTo?] at h
    split at h
    · simp_all
    · split at h
      · simp at h
      · obtain ⟨u, hu, rfl⟩ := eq_cons_of_map_cons h
        simp [ih hu]

theorem reference?_eq {t found rest : Text} (h : reference? t = some (found, rest)) :
    between '[' found ']' ++ rest = t := by
  unfold reference? at h
  split at h
  · simp [between, upTo?_eq h]
  · simp at h

theorem fragment?_eq {t found rest : Text} (h : fragment? t = some (found, rest)) :
    between '\x7b' found '\x7d' ++ rest = t := by
  unfold fragment? at h
  split at h
  · split at h
    · simp [between, upTo?_eq h]
    · simp at h
  · simp at h

theorem optional_eq {read? : Text → Option (Text × Text)} {opening closing : Char} {t : Text}
    (h : ∀ {found rest}, read? t = some (found, rest) → between opening found closing ++ rest = t) :
    ((optional read? t).1.elim [] fun f => between opening f closing) ++ (optional read? t).2 = t := by
  unfold optional
  split
  · next hr => simpa using h hr
  · rfl

theorem Bracket.after?_eq {image : Bool} {t : Text} {b : Bracket} {rest : Text}
    (h : Bracket.after? image t = some (b, rest)) :
    b.written ++ rest = (if image then ['!'] else []) ++ '[' :: t := by
  unfold Bracket.after? at h
  split at h
  · simp at h
  · simp at h
  · next c label rest' hl =>
    simp only [Option.some.injEq, Prod.mk.injEq] at h
    obtain ⟨rfl, rfl⟩ := h
    have hr := optional_eq (t := rest') reference?_eq
    have hf := optional_eq (t := (optional reference? rest').2) fragment?_eq
    simp only [Bracket.written, Bracket.head, List.append_assoc]
    rw [hf, hr, ← label?_eq hl]
    simp [between]

/-- Reading a reference takes exactly its characters. -/
theorem Bracket.read?_eq {t : Text} {b : Bracket} {rest : Text}
    (h : Bracket.read? t = some (b, rest)) : b.written ++ rest = t := by
  unfold Bracket.read? at h
  split at h
  · simpa using Bracket.after?_eq h
  · simpa using Bracket.after?_eq h
  · simp at h

theorem Bracket.written_ne_nil (b : Bracket) : b.written ≠ [] := by
  simp [Bracket.written, Bracket.head, between]

/-- A stretch of a line. -/
inductive Segment where
  | char (c : Char)
  | bracket (b : Bracket)

/-- The characters of a segment. -/
def Segment.written : Segment → Text
  | .char c => [c]
  | .bracket b => b.written

/-- Cuts a line into references, read from left to right, and other characters. -/
def segments (line : Text) : List Segment :=
  match line with
  | [] => []
  | c :: rest =>
    match _h : Bracket.read? (c :: rest) with
    | some (b, rest) => .bracket b :: segments rest
    | none => .char c :: segments rest
termination_by line.length
decreasing_by
  · have := congrArg List.length (Bracket.read?_eq _h)
    have := List.length_pos_iff.2 b.written_ne_nil
    simp only [List.length_append] at *
    omega
  · simp

/-- No character of the line is lost. -/
theorem written_segments (line : Text) : (segments line).flatMap Segment.written = line := by
  fun_induction segments line with
  | case1 => rfl
  | case2 c rest b rest' h ih => simpa [Segment.written, ih] using Bracket.read?_eq h
  | case3 c rest _ ih => simp [Segment.written, ih]

end TidyMark.Reflink
