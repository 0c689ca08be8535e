import TidyMark.Proofs.Course
import TidyMark.Proofs.Formation
import TidyMark.Proofs.Watch

/-!
# Content without links

What a watch lets through holds no link and no image when it is read as inline content
(`areUnlinked_ofText`), whatever else it holds. While it is read, no more brackets are open than the
watch has counted (`Reader.Fits`): each kind of character keeps this up, so that a closing bracket
never stands before the parenthesis that would make a link of it.
-/

namespace TidyMark.Markdown

open Text

mutual

/-- Whether there is no link and no image in inline content, and, where a strict watch has let the
text of it through, nothing either that is written as it stands but code that such a watch lets
through. -/
def Inline.IsUnlinked (strict : Bool) : Inline → Prop
  | .text _ | .softBreak | .lineBreak => True
  | .code t => strict = true → IsSafe true t
  | .html _ | .footnoteRef _ _ _ => strict = false
  | .emphasis xs | .strong xs | .strikethrough xs | .superscript xs => AreUnlinked strict xs
  | .link _ _ _ | .image _ _ _ => False

def AreUnlinked (strict : Bool) : List Inline → Prop
  | [] => True
  | x :: rest => x.IsUnlinked strict ∧ AreUnlinked strict rest

end

section Pieces

variable {strict : Bool}

theorem areUnlinked_iff {xs : List Inline} :
    AreUnlinked strict xs ↔ ∀ x ∈ xs, x.IsUnlinked strict := by
  induction xs with
  | nil => simp [AreUnlinked]
  | cons x xs ih => rw [AreUnlinked, ih, List.forall_mem_cons]

/-- Whether pieces become content without links. -/
def ArePlain (strict : Bool) (pieces : List Piece) : Prop :=
  ∀ p ∈ pieces, p.inline.IsUnlinked strict

theorem delimits_isUnlinked : Delimits (Inline.IsUnlinked strict) where
  text t := by simp [Inline.IsUnlinked]
  delimited char n xs h := by
    unfold delimited
    split_ifs <;> simpa only [Inline.IsUnlinked] using areUnlinked_iff.2 h

theorem isUnlinked_text (t : Text) : (Piece.node (.text t)).inline.IsUnlinked strict :=
  delimits_isUnlinked.text t

theorem isUnlinked_run (r : Run) : (Piece.run r).inline.IsUnlinked strict :=
  delimits_isUnlinked.text r.text

theorem ArePlain.cons {p : Piece} {pieces : List Piece} (hp : p.inline.IsUnlinked strict)
    (h : ArePlain strict pieces) : ArePlain strict (p :: pieces) :=
  AllPieces.cons hp h

theorem ArePlain.append {ps qs : List Piece} (hp : ArePlain strict ps) (hq : ArePlain strict qs) :
    ArePlain strict (ps ++ qs) :=
  AllPieces.append hp hq

theorem areUnlinked_resolve {pieces : List Piece} (h : ArePlain strict pieces) :
    AreUnlinked strict (Piece.resolve pieces) :=
  areUnlinked_iff.2 (forall_resolve delimits_isUnlinked h)

end Pieces

/-- How a reader fits the watch that stands where it does, before `rest`. -/
structure Reader.Fits (strict : Bool) (w : Watch) (r : Reader) (rest : Text) : Prop where
  pieces : ArePlain strict r.pieces
  before : ∀ b ∈ r.brackets, ArePlain strict b.before
  /-- Every open bracket has been counted. -/
  counted : r.brackets.length ≤ w.opened
  quiet : strict = true → w.opened = 0
  /-- A backslash has not been read as an escape only if it is none. -/
  escaped : w.last = .backslash → ∀ c ∈ rest.head?, isAsciiPunctuation c = false
  watched : ∃ v, w.run strict rest = some v

/-- What reading a part of a text comes to: how many characters it takes and what has been read. -/
def Proceeds (strict : Bool) (text : Text) (result : Nat × Reader) : Prop :=
  ∃ s rest w, text = s ++ rest ∧ s ≠ [] ∧ result.1 = s.length ∧ result.2.Fits strict w rest

section Signs

variable {strict : Bool} {w v : Watch} {s t : Text} {c : Char}

theorem step_idle (hc : (Sign.of c).isIdle = true) (h : w.step strict c = some v) :
    v.opened = w.opened ∧ v.last ≠ .backslash := by
  obtain ⟨n, l⟩ := w
  revert h hc
  unfold Watch.step
  cases Sign.of c <;> cases l <;>
    grind [Watch.pass, Watch.passEscaped, Watch.passAngle, Watch.next, Sign.isIdle]

theorem run_idle (hs : ∀ c ∈ s, (Sign.of c).isIdle = true) (h : w.run strict s = some v) :
    v.opened = w.opened ∧ (s ≠ [] → v.last ≠ .backslash) := by
  induction s generalizing w with
  | nil =>
    cases h
    exact ⟨rfl, fun h => absurd rfl h⟩
  | cons c s ih =>
    obtain ⟨hc, hs⟩ := List.forall_mem_cons.1 hs
    obtain ⟨u, hu, h⟩ := Option.bind_eq_some_iff.1 h
    obtain ⟨ho, hl⟩ := step_idle hc hu
    obtain ⟨ho', hl'⟩ := ih hs h
    refine ⟨ho'.trans ho, fun _ => ?_⟩
    rcases s with _ | ⟨d, s⟩
    · cases h
      exact hl
    · exact hl' (by simp)

theorem idle_of_not_isSpecial {b : Bool} (h : isSpecial b c = false) : (Sign.of c).isIdle = true := by
  unfold Sign.of
  split
  all_goals first
    | rfl
    | (split_ifs <;> rfl)
    | simp [isSpecial] at h

theorem step_escaped (hl : w.last = .backslash) (h : w.step strict c = some v) :
    v.opened = w.opened ∧ v.last ≠ .backslash := by
  obtain ⟨n, l⟩ := w
  revert h hl
  unfold Watch.step
  cases Sign.of c <;> cases l <;> grind [Watch.passEscaped, Watch.next]

theorem step_backslash (hc : Sign.of c = .backslash) (hl : w.last ≠ .backslash)
    (h : w.step strict c = some v) : v = ⟨w.opened, .backslash⟩ := by
  obtain ⟨n, l⟩ := w
  rw [Watch.step, hc] at h
  cases l <;> simp_all [Watch.next, Watch.pass, Watch.passAngle]

theorem step_opening (hc : Sign.of c = .opening) (hl : w.last ≠ .backslash)
    (h : w.step strict c = some v) : v = ⟨w.opened + 1, .other⟩ := by
  obtain ⟨n, l⟩ := w
  rw [Watch.step, hc] at h
  cases l <;> simp_all [Watch.next, Watch.pass, Watch.passAngle]

theorem step_closing (hc : Sign.of c = .closing) (hl : w.last ≠ .backslash)
    (h : w.step strict c = some v) :
    v = ⟨w.opened - 1, if 0 < w.opened then .closing else .other⟩ := by
  obtain ⟨n, l⟩ := w
  rw [Watch.step, hc] at h
  cases l <;> simp_all [Watch.next, Watch.pass, Watch.passAngle]

theorem step_hiding (hc : Sign.of c = .hiding) (h : w.step strict c = some v) :
    w.opened = 0 ∧ v = {} := by
  obtain ⟨n, l⟩ := w
  rw [Watch.step, hc] at h
  cases l <;> simp_all [Watch.next, Watch.pass, Watch.passEscaped, Watch.passAngle]

theorem step_angle (hc : Sign.of c = .angle) (hl : w.last ≠ .backslash)
    (h : w.step strict c = some v) : v = ⟨w.opened, .angle⟩ ∧ strict = false := by
  obtain ⟨n, l⟩ := w
  rw [Watch.step, hc] at h
  cases l <;> simp_all [Watch.next, Watch.pass, Watch.passAngle]

end Signs

section Scans

variable {t : Text}

theorem append_of_head?_drop {n : Nat} {d : Char} (hn : n ≤ t.length)
    (h : (t.drop n).head? = some d) : ∃ u v, t = u ++ d :: v ∧ u.length = n := by
  refine ⟨t.take n, (t.drop n).tail, ?_, List.length_take_of_le hn⟩
  rw [List.cons_head?_tail h, List.take_append_drop]

/-- A character reference ends with a semicolon. -/
theorem semicolon_of_numeric? {digit : Char → Bool} {value : Text → Nat} {s : Text} {n : Nat}
    (h : numeric? digit value t = some (s, n)) : ∃ u v, t = u ++ ';' :: v ∧ n = u.length + 1 := by
  unfold numeric? at h
  dsimp only at h
  split_ifs at h with hd
  cases h
  simp only [Bool.and_eq_true, decide_eq_true_eq, beq_iff_eq] at hd
  obtain ⟨u, v, ht, hu⟩ := append_of_head?_drop (List.takeWhile_prefix _).length_le hd.2
  exact ⟨u, v, ht, by rw [hu]⟩

theorem semicolon_of_entity? {s : Text} {n : Nat} (h : entity? t = some (s, n)) :
    ∃ u v, t = u ++ ';' :: v ∧ n = u.length + 1 := by
  -- What stands before the digits is counted behind them.
  have hnumeric : ∀ (mark : Text) {digit : Char → Bool} {value : Text → Nat} {rest : Text}
      {count : Text × Nat → Text × Nat}, (∀ p, (count p).2 = p.2 + mark.length) →
        (numeric? digit value rest).map count = some (s, n) →
          ∃ u v, mark ++ rest = u ++ ';' :: v ∧ n = u.length + 1 := by
    intro mark digit value rest count hcount hmap
    obtain ⟨⟨s', m⟩, hm, heq⟩ := Option.map_eq_some_iff.1 hmap
    obtain ⟨u, v, rfl, rfl⟩ := semicolon_of_numeric? hm
    refine ⟨mark ++ u, v, (List.append_assoc _ _ _).symm, ?_⟩
    have hlength : n = u.length + 1 + mark.length :=
      (congrArg Prod.snd heq).symm.trans (hcount _)
    rw [hlength, List.length_append]
    omega
  unfold entity? at h
  split at h
  · split at h
    · exact hnumeric ['#', 'x'] (fun _ => rfl) h
    · exact hnumeric ['#', 'X'] (fun _ => rfl) h
    · exact hnumeric ['#'] (fun _ => rfl) h
  · dsimp only at h
    split_ifs at h with hname
    obtain ⟨s', -, heq⟩ := Option.map_eq_some_iff.1 h
    cases heq
    simp only [Bool.and_eq_true, decide_eq_true_eq, beq_iff_eq] at hname
    obtain ⟨u, v, ht, hu⟩ := append_of_head?_drop (List.takeWhile_prefix _).length_le hname.2
    exact ⟨u, v, ht, by rw [hu]⟩

/-- Where a run of backticks stands. -/
theorem exists_of_mem_tickRuns : ∀ {t : Text} {run width left : Nat},
    (width, left) ∈ tickRuns run t → ∃ u v, List.replicate run '`' ++ t =
      u ++ List.replicate width '`' ++ v ∧ left = width + v.length
  | [], run, width, left, h => by
    unfold tickRuns at h
    split_ifs at h
    · cases h
    · cases List.mem_singleton.1 h
      exact ⟨[], [], by simp, by simp⟩
  | c :: rest, run, width, left, h => by
    have hrest : (width, left) ∈ tickRuns 0 rest → ∃ u v, List.replicate run '`' ++ c :: rest =
        u ++ List.replicate width '`' ++ v ∧ left = width + v.length := by
      intro hmem
      obtain ⟨u, v, heq, hleft⟩ := exists_of_mem_tickRuns hmem
      refine ⟨List.replicate run '`' ++ c :: u, v, ?_, hleft⟩
      rw [List.replicate_zero, List.nil_append] at heq
      simp [heq]
    unfold tickRuns at h
    split_ifs at h with hc hrun
    · obtain ⟨u, v, heq, hleft⟩ := exists_of_mem_tickRuns h
      refine ⟨u, v, ?_, hleft⟩
      rw [← heq, List.replicate_succ', List.append_assoc, beq_iff_eq.1 hc]
      rfl
    · exact hrest h
    · rcases List.mem_cons.1 h with heq | h
      · cases heq
        exact ⟨[], c :: rest, by simp, by simp only [List.length_cons]; omega⟩
      · exact hrest h

/-- Where the first run of a width stands. -/
theorem exists_of_dropWhile_tickRuns {width width' left : Nat} {runs : List (Nat × Nat)}
    (h : (tickRuns 0 t).dropWhile (·.1 != width) = (width', left) :: runs) :
    ∃ u v, t = u ++ List.replicate width '`' ++ v ∧ t.length - left = u.length := by
  obtain rfl : width' = width := by
    have hnot := List.head?_dropWhile_not (fun x : Nat × Nat => x.1 != width) (tickRuns 0 t)
    rw [h] at hnot
    simpa using hnot
  obtain ⟨u, v, ht, rfl⟩ := @exists_of_mem_tickRuns t 0 _ _
    ((List.dropWhile_suffix _).subset (h ▸ List.mem_cons_self))
  rw [List.replicate_zero, List.nil_append] at ht
  refine ⟨u, v, ht, ?_⟩
  rw [ht, List.length_append, List.length_append, List.length_replicate]
  omega

/-- A run of backticks is read as itself, or as code with what stands before the run that closes
it. -/
theorem readTicks_cases (r : Reader) (width : Nat) (after : Text) :
    ∃ r' : Reader, r'.pieces = r.pieces ∧ r'.brackets = r.brackets ∧
      (readTicks r width after = (width, r'.add (.text (List.replicate width '`'))) ∨
        ∃ u v, after = u ++ List.replicate width '`' ++ v ∧
          readTicks r width after =
            (width + u.length + width, r'.add (.code (codeContent u)))) := by
  unfold readTicks
  dsimp only
  split
  · exact ⟨r, rfl, rfl, .inl rfl⟩
  split
  · refine ⟨_, ?_, ?_, .inl rfl⟩ <;> rfl
  · next width' left runs hruns =>
    rw [drop_length_takeWhile] at hruns
    obtain ⟨u, v, hafter, hlength⟩ := exists_of_dropWhile_tickRuns hruns
    have htake : after.take u.length = u := by rw [hafter, List.append_assoc, List.take_left]
    rw [hlength, htake]
    refine ⟨_, ?_, ?_, .inr ⟨u, v, hafter, rfl⟩⟩ <;> rfl

end Scans

section Tags

variable {n : Nat} {v : Watch} {t : Text} {c : Char} {strict : Bool}

theorem isAlpha_of_sign (h : Sign.of c = .letter) : c.isAlpha = true := by
  unfold Sign.of at h
  split at h
  case h_13 => split_ifs at h with _ halpha; exact halpha
  all_goals cases h

theorem eq_of_sign_greater (h : Sign.of c = .greater) : c = '>' := by
  unfold Sign.of at h
  split at h
  case h_12 => rfl
  case h_13 => split_ifs at h
  all_goals cases h

theorem eq_of_sign_slash (h : Sign.of c = .slash) : c = '/' := by
  unfold Sign.of at h
  split at h
  case h_11 => rfl
  case h_13 => split_ifs at h
  all_goals cases h

theorem isBlank_of_sign (h : Sign.of c = .space ∨ Sign.of c = .newline) : isBlank c = true := by
  unfold Sign.of at h
  split at h
  case h_7 => decide
  case h_8 => decide
  case h_13 => split_ifs at h with hblank <;> first | exact hblank | (rcases h with h | h <;> cases h)
  all_goals rcases h with h | h <;> cases h

theorem toNat_of_isBlank (h : isBlank c = true) : c.toNat ≤ 32 ∨ 133 ≤ c.toNat := by
  by_cases hc : c = ' '
  · exact .inl (by rw [hc]; decide)
  · simp only [isBlank, beq_eq_false_iff_ne.2 hc, Bool.or_eq_true, Bool.and_eq_true,
      decide_eq_true_eq, beq_iff_eq, Bool.false_eq_true, false_or] at h
    omega

theorem isAlphanum_of_isBlank (h : isBlank c = true) : c.isAlphanum = false := by
  have hn := toNat_of_isBlank h
  have hval : c.toNat = c.val.toNat := rfl
  have hranges : c.isAlphanum = (decide (c.val ≥ 'A'.val ∧ c.val ≤ 'Z'.val) ||
      c.val ≥ 'a'.val && c.val ≤ 'z'.val || c.val ≥ '0'.val && c.val ≤ '9'.val) := rfl
  simp only [hranges, Bool.or_eq_false_iff, Bool.and_eq_false_iff, decide_eq_false_iff_not,
    ge_iff_le, UInt32.le_iff_toNat_le]
  have h0 : '0'.val.toNat = 48 := rfl
  have h9 : '9'.val.toNat = 57 := rfl
  have hA : 'A'.val.toNat = 65 := rfl
  have hZ : 'Z'.val.toNat = 90 := rfl
  have ha : 'a'.val.toNat = 97 := rfl
  have hz : 'z'.val.toNat = 122 := rfl
  omega

theorem isMailNameChar_of_isBlank (h : isBlank c = true) : isMailNameChar c = false := by
  have hmarks : (".!#$%&'*+/=?^_`\x7b|\x7d~-" : Text).all (!isBlank ·) = true := by decide
  rw [isMailNameChar, isAlphanum_of_isBlank h, Bool.false_or, ← Bool.not_eq_true,
    List.contains_iff_mem]
  intro hc
  simpa [h] using List.all_eq_true.1 hmarks c hc

theorem exists_of_run_tag : ∀ {t : Text}, (⟨n, .tag⟩ : Watch).run strict t = some v →
    ∃ name tail, t = name ++ tail ∧ (∀ c ∈ name, c.isAlpha = true) ∧
      (tail = [] ∨ ∃ rest, tail = '>' :: rest ∧
        (⟨n, .tag⟩ : Watch).run strict (name ++ ['>']) = some ⟨n, .other⟩)
  | [], _ => ⟨[], [], rfl, by simp, .inl rfl⟩
  | c :: t, h => by
    obtain ⟨u, hu, h⟩ := Option.bind_eq_some_iff.1 h
    have hstep := hu
    simp only [Watch.step, Watch.next] at hu
    split_ifs at hu with hletter hgreater
    · cases hu
      obtain ⟨name, tail, rfl, hname, htail⟩ := exists_of_run_tag h
      refine ⟨c :: name, tail, rfl, List.forall_mem_cons.2 ⟨isAlpha_of_sign hletter, hname⟩,
        htail.imp_right ?_⟩
      rintro ⟨rest, rfl, hrun⟩
      exact ⟨rest, rfl, by rw [List.cons_append, Watch.run_cons, hstep, Option.bind_some, hrun]⟩
    · rw [eq_of_sign_greater hgreater]
      exact ⟨[], '>' :: t, rfl, by simp, .inr ⟨t, rfl, rfl⟩⟩

/-- What may stand behind a less-than sign: white space, a tag or the beginning of one. -/
inductive AngleTail (strict : Bool) (n : Nat) : Text → Prop
  | nil : AngleTail strict n []
  | blank (c : Char) (t : Text) (hc : isBlank c = true) : AngleTail strict n (c :: t)
  | begun {slash name : Text} (hslash : slash = [] ∨ slash = ['/'])
      (hname : ∀ c ∈ name, c.isAlpha = true) : AngleTail strict n (slash ++ name)
  | tag {slash name : Text} (rest : Text) (hslash : slash = [] ∨ slash = ['/']) (hne : name ≠ [])
      (hname : ∀ c ∈ name, c.isAlpha = true)
      (hrun : (⟨n, .angle⟩ : Watch).run strict (slash ++ name ++ ['>']) = some ⟨n, .other⟩) :
      AngleTail strict n (slash ++ name ++ '>' :: rest)

theorem angleTail_of_letter {slash : Text} {l : Watch.Last} (hslash : slash = [] ∨ slash = ['/'])
    (hc : Sign.of c = .letter) (hstart : (⟨n, .angle⟩ : Watch).run strict slash = some ⟨n, l⟩)
    (hstep : (⟨n, l⟩ : Watch).step strict c = some ⟨n, .tag⟩)
    (h : (⟨n, .tag⟩ : Watch).run strict t = some v) : AngleTail strict n (slash ++ c :: t) := by
  obtain ⟨name, tail, rfl, hname, htail⟩ := exists_of_run_tag h
  have hall : ∀ d ∈ c :: name, d.isAlpha = true :=
    List.forall_mem_cons.2 ⟨isAlpha_of_sign hc, hname⟩
  rcases htail with rfl | ⟨rest, rfl, hrun⟩
  · rw [List.append_nil]
    exact .begun hslash hall
  · have htag : AngleTail strict n (slash ++ c :: name ++ '>' :: rest) :=
      .tag rest hslash (List.cons_ne_nil c name) hall (by
        rw [List.append_assoc, Watch.run_append_of_eq hstart, List.cons_append, Watch.run_cons,
          hstep, Option.bind_some, hrun])
    simpa using htag

theorem angleTail_of_run (h : (⟨n, .angle⟩ : Watch).run strict t = some v) : AngleTail strict n t := by
  rcases t with _ | ⟨c, t⟩
  · exact .nil
  obtain ⟨u, hu, h⟩ := Option.bind_eq_some_iff.1 h
  have hstep := hu
  simp only [Watch.step, Watch.next] at hu
  cases hc : Sign.of c <;> rw [hc] at hu <;> simp only [Watch.passAngle] at hu
  case newline => exact .blank c t (isBlank_of_sign (.inr hc))
  case space => exact .blank c t (isBlank_of_sign (.inl hc))
  case letter =>
    cases hu
    exact angleTail_of_letter (.inl rfl) hc rfl hstep h
  case slash =>
    cases hu
    rw [eq_of_sign_slash hc] at hstep ⊢
    rcases t with _ | ⟨d, t⟩
    · exact @AngleTail.begun _ _ ['/'] [] (.inr rfl) (by simp)
    obtain ⟨u, hu, h⟩ := Option.bind_eq_some_iff.1 h
    have hstep' := hu
    simp only [Watch.step, Watch.next] at hu
    split_ifs at hu with hd
    cases hu
    exact @angleTail_of_letter _ _ _ _ _ ['/'] _ (.inr rfl) hd
      (by rw [Watch.run_cons, hstep]; rfl) hstep' h
  all_goals cases hu

theorem rawHtml_of_head (unended : List RawForm) (h : ∀ c ∈ t.head?, c ≠ '!' ∧ c ≠ '?') :
    rawHtml unended t = .ofOption (tag? t) := by
  unfold rawHtml
  split
  · exact absurd rfl (h '!' rfl).1
  · exact absurd rfl (h '?' rfl).2
  · rfl

section Readers

variable {slash name tail : Text} (hslash : slash = [] ∨ slash = ['/'])
  (hname : ∀ c ∈ name, c.isAlpha = true) (htail : tail = [] ∨ ∃ rest, tail = '>' :: rest)

include hname htail

theorem takeWhile_name {p : Char → Bool} (hp : ∀ c : Char, c.isAlpha = true → p c = true)
    (hclose : p '>' = false) : (name ++ tail).takeWhile p = name := by
  rw [List.takeWhile_append_of_pos fun c hc => hp c (hname c hc)]
  rcases htail with rfl | ⟨rest, rfl⟩
  · simp
  · simp [hclose]

theorem dropWhile_name {p : Char → Bool} (hp : ∀ c : Char, c.isAlpha = true → p c = true)
    (hclose : p '>' = false) : (name ++ tail).dropWhile p = tail := by
  rw [List.dropWhile_append_of_pos fun c hc => hp c (hname c hc)]
  rcases htail with rfl | ⟨rest, rfl⟩
  · simp
  · simp [hclose]

include hslash

theorem autolinkUrl?_eq_none : autolinkUrl? (slash ++ name ++ tail) = none := by
  rcases hslash with rfl | rfl
  · have hscheme := takeWhile_name hname htail (p := isSchemeChar)
      (fun c hc => by simp [isSchemeChar, Char.isAlphanum, hc]) (by decide)
    have hcolon : (tail.head? == some ':') = false := by
      rcases htail with rfl | ⟨rest, rfl⟩ <;> rfl
    unfold autolinkUrl?
    simp only [List.nil_append, hscheme, List.drop_left, hcolon, Bool.and_false, Bool.false_and]
    rfl
  · rfl

theorem autolinkMail?_eq_none : autolinkMail? (slash ++ name ++ tail) = none := by
  have hletters : ∀ c : Char, c.isAlpha = true → isMailNameChar c = true := fun c hc => by
    simp [isMailNameChar, Char.isAlphanum, hc]
  have hmail : (slash ++ name ++ tail).takeWhile isMailNameChar = slash ++ name := by
    have htake := takeWhile_name hname htail hletters (by decide)
    rcases hslash with rfl | rfl
    · exact htake
    · rw [List.append_assoc, List.singleton_append, List.takeWhile_cons, if_pos (by decide), htake]
      rfl
  unfold autolinkMail?
  dsimp only
  rw [hmail, List.drop_left]
  rcases htail with rfl | ⟨rest, rfl⟩ <;> rfl

theorem rawHtml_name (unended : List RawForm) :
    rawHtml unended (slash ++ name ++ tail) = .ofOption (tag? (slash ++ name ++ tail)) := by
  have hhead : ∀ c ∈ (slash ++ name ++ tail).head?, c ≠ '!' ∧ c ≠ '?' := by
    intro c hc
    rcases hslash with rfl | rfl
    · rcases name with _ | ⟨d, name⟩
      · rcases htail with rfl | ⟨rest, rfl⟩
        · cases hc
        · cases hc
          decide
      · cases hc
        have hletter := hname c List.mem_cons_self
        exact ⟨by rintro rfl; exact absurd hletter (by decide),
          by rintro rfl; exact absurd hletter (by decide)⟩
    · cases hc
      decide
  exact rawHtml_of_head unended hhead

theorem tag?_name : tag? (slash ++ name ++ tail) = if name = [] then none else tail.tail? := by
  have hletters : ∀ c : Char, c.isAlpha = true → isTagNameChar c = true := fun c hc => by
    simp [isTagNameChar, Char.isAlphanum, hc]
  have hdrop := dropWhile_name hname htail hletters (by decide)
  have htagName : tagName? (name ++ tail) = if name = [] then none else some tail := by
    unfold tagName?
    rw [hdrop]
    rcases name with _ | ⟨c, name⟩
    · rcases htail with rfl | ⟨rest, rfl⟩ <;> rfl
    · simp [hname c List.mem_cons_self]
  rcases hslash with rfl | rfl
  · have hopen : openTag? (name ++ tail) = if name = [] then none else tail.tail? := by
      rw [openTag?, htagName]
      split_ifs
      · rfl
      · rcases htail with rfl | ⟨rest, rfl⟩ <;> rw [Option.bind_some, attributes?.eq_def] <;> rfl
    have hclose : closeTag? (name ++ tail) = none := by
      unfold closeTag?
      split
      · next heq =>
        rcases name with _ | ⟨c, name⟩
        · rcases htail with rfl | ⟨rest, rfl⟩ <;> cases heq
        · cases heq
          exact absurd (hname '/' List.mem_cons_self) (by decide)
      · rfl
    rw [List.nil_append, tag?, hopen, hclose, Option.or_none]
  · have hopen : openTag? (['/'] ++ name ++ tail) = none := rfl
    rw [tag?, hopen, Option.none_or, List.append_assoc, List.singleton_append, closeTag?, htagName]
    split_ifs
    · rfl
    · rcases htail with rfl | ⟨rest, rfl⟩ <;> rfl

end Readers

end Tags

section Characters

variable {strict : Bool} {w w' : Watch} {r r' : Reader} {s rest : Text} {c : Char}

namespace Reader.Fits

/-- A reader that has come by `s` fits the watch that has. -/
theorem pass (h : r.Fits strict w (s ++ rest)) (hw : w.run strict s = some w')
    (hpieces : ArePlain strict r'.pieces) (hbefore : ∀ b ∈ r'.brackets, ArePlain strict b.before)
    (hopened : r'.brackets.length ≤ w'.opened)
    (hlast : w'.last = .backslash → ∀ c ∈ rest.head?, isAsciiPunctuation c = false) :
    r'.Fits strict w' rest where
  pieces := hpieces
  before := hbefore
  counted := hopened
  quiet hs := by
    subst hs
    exact Watch.opened_of_run_strict (h.quiet rfl) hw
  escaped := hlast
  watched := by
    obtain ⟨v, hv⟩ := h.watched
    exact ⟨v, by rwa [Watch.run_append_of_eq hw] at hv⟩

theorem add (h : r.Fits strict w (s ++ rest)) (hw : w.run strict s = some w') {x : Inline}
    (hx : x.IsUnlinked strict) (hopened : r.brackets.length ≤ w'.opened)
    (hlast : w'.last ≠ .backslash) : (r.add x).Fits strict w' rest :=
  h.pass hw (h.pieces.cons hx) h.before hopened fun hb => absurd hb hlast

/-- What has been remembered about the rest of the text does not count. -/
theorem congr (h : r.Fits strict w rest) (hpieces : r'.pieces = r.pieces)
    (hbrackets : r'.brackets = r.brackets) : r'.Fits strict w rest where
  pieces := hpieces ▸ h.pieces
  before := hbrackets ▸ h.before
  counted := hbrackets ▸ h.counted
  quiet := h.quiet
  escaped := h.escaped
  watched := h.watched

theorem exists_run (h : r.Fits strict w (s ++ rest)) : ∃ w', w.run strict s = some w' := by
  obtain ⟨v, hv⟩ := h.watched
  obtain ⟨w', hw, -⟩ := Watch.exists_of_run_append hv
  exact ⟨w', hw⟩

/-- What begins with punctuation does not stand behind a backslash that has not been read. -/
theorem last_ne_backslash (h : r.Fits strict w (c :: rest)) (hc : isAsciiPunctuation c = true) :
    w.last ≠ .backslash := fun hb => by
  rw [h.escaped hb c rfl] at hc
  cases hc

end Reader.Fits

theorem proceeds_text (h : r.Fits strict w (c :: rest)) (hc : isSpecial r.inBrackets c = false) :
    Proceeds strict (c :: rest) (readText r c rest) := by
  have hrest := List.takeWhile_append_dropWhile (p := fun d => !isSpecial r.inBrackets d) (l := rest)
  unfold readText
  dsimp only
  set more := rest.takeWhile fun d => !isSpecial r.inBrackets d with hmore
  generalize (if (rest.drop more.length).head? == some '\n' then Text.trimSpaceEnd (c :: more)
    else c :: more) = text
  have hidle : ∀ d ∈ c :: more, (Sign.of d).isIdle = true := by
    refine List.forall_mem_cons.2 ⟨idle_of_not_isSpecial hc, fun d hd => ?_⟩
    exact idle_of_not_isSpecial (by simpa using List.mem_takeWhile_imp hd)
  rw [← hrest, ← List.cons_append] at h
  obtain ⟨w', hw⟩ := h.exists_run
  obtain ⟨hopened, hlast⟩ := run_idle hidle hw
  refine ⟨c :: more, _, w', by rw [List.cons_append, hrest], by simp, by simp [Nat.add_comm], ?_⟩
  have hcounted : r.brackets.length ≤ w'.opened := hopened ▸ h.counted
  unfold Reader.addText
  dsimp only
  split_ifs
  · exact h.pass hw h.pieces h.before hcounted fun hb => absurd hb (hlast (by simp))
  · exact h.add hw (by simp [Inline.IsUnlinked]) hcounted (hlast (by simp))

theorem proceeds_backslash (h : r.Fits strict w ('\\' :: rest)) :
    Proceeds strict ('\\' :: rest) (readBackslash r rest) := by
  obtain ⟨v, hv⟩ := h.watched
  obtain ⟨w₁, hw₁, hv⟩ := Option.bind_eq_some_iff.1 hv
  have hstep := step_backslash rfl (h.last_ne_backslash (by decide)) hw₁
  have hone : w.run strict ['\\'] = some w₁ := by rw [Watch.run_cons, hw₁]; rfl
  have hplain : ArePlain strict (r.add (.text ['\\'])).pieces :=
    h.pieces.cons (isUnlinked_text _)
  have hcounted : r.brackets.length ≤ w₁.opened := by
    rw [hstep]
    exact h.counted
  rcases rest with _ | ⟨c, rest⟩
  · exact ⟨['\\'], [], w₁, rfl, by simp, rfl, h.pass (s := ['\\']) hone hplain h.before hcounted
      (by simp)⟩
  · -- What is escaped is read together with the backslash, anything else is not punctuation.
    obtain ⟨w₂, hw₂, hv⟩ := Option.bind_eq_some_iff.1 hv
    have htwo : w.run strict ['\\', c] = some w₂ := by
      rw [Watch.run_cons, hw₁, Option.bind_some, Watch.run_cons, hw₂]
      rfl
    obtain ⟨hopened, hlast⟩ := step_escaped (by rw [hstep]) hw₂
    have hadd : ∀ x : Inline, x.IsUnlinked strict →
        Proceeds strict ('\\' :: c :: rest) (2, r.add x) := fun x hx =>
      ⟨['\\', c], rest, w₂, rfl, by simp, rfl,
        h.add (s := ['\\', c]) htwo hx (hopened ▸ hcounted) hlast⟩
    rw [readBackslash]
    split_ifs with hpunct hn
    · exact hadd _ (by simp [Inline.IsUnlinked])
    · exact hadd _ (by simp [Inline.IsUnlinked])
    · refine ⟨['\\'], c :: rest, w₁, rfl, by simp, rfl, h.pass (s := ['\\']) hone hplain h.before
        hcounted fun _ d hd => ?_⟩
      cases hd
      simpa using hpunct

theorem fits_openBracket (image : Bool) (h : r.Fits strict w (s ++ '[' :: rest))
    (hs : ∀ v, w.run strict s = some v → v.opened = w.opened ∧ v.last ≠ .backslash) :
    ∃ w', (r.openBracket image rest).Fits strict w' rest := by
  rw [List.append_cons] at h
  obtain ⟨w', hw⟩ := h.exists_run
  obtain ⟨v, hv, hw'⟩ := Watch.exists_of_run_append hw
  obtain ⟨hopened, hlast⟩ := hs v hv
  obtain ⟨u, hu, hw'⟩ := Option.bind_eq_some_iff.1 hw'
  cases hw'
  have hstep := step_opening rfl hlast hu
  refine ⟨w', h.pass hw (by simp [Reader.openBracket, ArePlain]) ?_ ?_ (by rw [hstep]; simp)⟩
  · unfold Reader.openBracket
    refine List.forall_mem_cons.2 ⟨h.pieces, ?_⟩
    have hbefore := h.before
    split
    · next b bs hb =>
      rw [hb] at hbefore
      exact List.forall_mem_cons.2 (List.forall_mem_cons.1 hbefore)
    · simp
  · have hcounted := h.counted
    rw [hstep, hopened]
    unfold Reader.openBracket
    rcases hb : r.brackets with _ | ⟨b, bs⟩
    · exact Nat.succ_le_succ (Nat.zero_le _)
    · rw [hb] at hcounted
      exact Nat.succ_le_succ hcounted

theorem proceeds_open (h : r.Fits strict w ('[' :: rest)) :
    Proceeds strict ('[' :: rest) (1, r.openBracket false rest) := by
  obtain ⟨w', hw⟩ := fits_openBracket false (s := []) h fun v hv => by
    cases hv
    exact ⟨rfl, h.last_ne_backslash (by decide)⟩
  exact ⟨['['], rest, w', rfl, by simp, rfl, hw⟩

theorem proceeds_one (h : r.Fits strict w (c :: rest)) (hc : (Sign.of c).isIdle = true) {x : Inline}
    (hx : x.IsUnlinked strict) : Proceeds strict (c :: rest) (1, r.add x) := by
  obtain ⟨w', hw⟩ := h.exists_run (s := [c])
  obtain ⟨hopened, hlast⟩ := run_idle (s := [c]) (by simpa using hc) hw
  exact ⟨[c], rest, w', rfl, by simp, rfl,
    h.add (s := [c]) hw hx (hopened ▸ h.counted) (hlast (by simp))⟩

theorem proceeds_exclamation (h : r.Fits strict w ('!' :: rest)) :
    Proceeds strict ('!' :: rest) (r.step {} s '!' rest) := by
  have hspecial : isSpecial r.inBrackets '!' = true := rfl
  have hone := proceeds_one h rfl (x := .text ['!']) (by simp [Inline.IsUnlinked])
  unfold Reader.step
  simp only [hspecial]
  rcases rest with _ | ⟨d, after⟩
  · exact hone
  by_cases hd : d = '['
  · subst hd
    simp only [Bool.not_true, Bool.false_eq_true, if_false]
    split_ifs
    · exact hone
    · obtain ⟨w', hw⟩ := fits_openBracket true (s := ['!']) h fun v hv => by
        obtain ⟨hopened, hlast⟩ := run_idle (s := ['!']) (List.forall_mem_singleton.2 rfl) hv
        exact ⟨hopened, hlast (by simp)⟩
      exact ⟨['!', '['], after, w', rfl, by simp, rfl, hw⟩
  · simp only [Bool.not_true, Bool.false_eq_true, if_false]
    split
    · next heq =>
      cases heq
      exact absurd rfl hd
    · exact hone

/-- A closing bracket makes no link, as no parenthesis follows where a bracket is open. -/
theorem proceeds_close (h : r.Fits strict w (']' :: rest)) :
    Proceeds strict (']' :: rest) (closeBracket {} r rest) := by
  obtain ⟨v, hv⟩ := h.watched
  obtain ⟨w', hw', hv⟩ := Option.bind_eq_some_iff.1 hv
  have hstep := step_closing rfl (h.last_ne_backslash (by decide)) hw'
  have hone : w.run strict [']'] = some w' := by rw [Watch.run_cons, hw']; rfl
  have hlast : w'.last ≠ .backslash := by
    rw [hstep]
    dsimp only
    split_ifs <;> simp
  have hfits : ∀ {r' : Reader}, ArePlain strict r'.pieces →
      (∀ b ∈ r'.brackets, ArePlain strict b.before) → r'.brackets.length ≤ w'.opened →
        Proceeds strict (']' :: rest) (1, r') := fun hp hb hc =>
    ⟨[']'], rest, w', rfl, by simp, rfl,
      h.pass (s := [']']) hone hp hb hc fun hl => absurd hl hlast⟩
  have htext : (Piece.node (.text [']'])).inline.IsUnlinked strict := isUnlinked_text _
  have hbefore := h.before
  have hcounted := h.counted
  unfold closeBracket
  dsimp only
  rcases hb : r.brackets with _ | ⟨b, brackets⟩
  · exact hfits (h.pieces.cons htext) (by simp [Reader.add]) (by simp [Reader.add])
  · rw [hb, List.length_cons] at hcounted
    obtain ⟨hplain, hbefore⟩ := List.forall_mem_cons.1 (hb ▸ hbefore)
    have hpos : 0 < w.opened := by omega
    rw [if_pos hpos] at hstep
    have hlength : brackets.length ≤ w'.opened := by
      rw [hstep]
      dsimp only
      omega
    have htarget : rest.head? ≠ some '(' := by
      intro hc
      rw [← List.cons_head?_tail hc, Watch.run_cons, hstep] at hv
      cases hv
    have hmerge : ArePlain strict (Reader.merge r.pieces b) :=
      h.pieces.append (hplain.cons (isUnlinked_text _))
    simp only [inlineTarget?_eq_none htarget, referenceTarget?_eq_none, Option.or_none]
    split_ifs
    · exact hfits (hmerge.cons htext) hbefore hlength
    split
    · refine hfits (ArePlain.append (fun p hp => h.pieces p (List.mem_filter.1 hp).1)
        (hplain.cons ?_)) hbefore hlength
      simp only [Piece.inline, Inline.IsUnlinked]
      by_contra hs
      exact absurd (h.quiet (by simpa using hs)) hpos.ne'
    · exact hfits (hmerge.cons htext) hbefore hlength

theorem Reader.Fits.exists_run_concat {d : Char} (h : r.Fits strict w (s ++ d :: rest))
    (hd : d ≠ '\\') : ∃ w', w.run strict (s ++ [d]) = some w' ∧ w'.last ≠ .backslash := by
  rw [List.append_cons] at h
  obtain ⟨w', hw⟩ := h.exists_run
  obtain ⟨v, -, hv⟩ := Watch.exists_of_run_append hw
  obtain ⟨v', hv', heq⟩ := Option.bind_eq_some_iff.1 hv
  cases heq
  exact ⟨w', hw, Watch.last_ne_backslash hd hv'⟩

/-- Where a character might hide others no bracket is open. -/
theorem Reader.Fits.brackets_eq_nil (h : r.Fits strict w (c :: rest)) (hc : Sign.of c = .hiding) :
    r.brackets.length = 0 ∧ ∃ v, ({} : Watch).run strict rest = some v := by
  obtain ⟨v, hv⟩ := h.watched
  obtain ⟨w₁, hw₁, hv⟩ := Option.bind_eq_some_iff.1 hv
  obtain ⟨hopened, rfl⟩ := step_hiding hc hw₁
  have hcounted := h.counted
  exact ⟨by omega, v, hv⟩

/-- Content that takes up a text in which no bracket is open. -/
theorem proceeds_add {d : Char} {x : Inline} {n : Nat} (h : r.Fits strict w (s ++ d :: rest))
    (hd : d ≠ '\\') (hbrackets : r.brackets.length = 0) (hx : x.IsUnlinked strict)
    (hn : n = s.length + 1) : Proceeds strict (s ++ d :: rest) (n, r.add x) := by
  obtain ⟨w', hw, hlast⟩ := h.exists_run_concat hd
  refine ⟨s ++ [d], rest, w', List.append_cons _ _ _, by simp, by simp [hn], ?_⟩
  rw [List.append_cons] at h
  exact h.add hw hx (by omega) hlast

theorem proceeds_ampersand (h : r.Fits strict w ('&' :: rest)) (before : Text) :
    Proceeds strict ('&' :: rest) (r.step {} before '&' rest) := by
  have hspecial : isSpecial r.inBrackets '&' = true := rfl
  obtain ⟨hbrackets, -⟩ := h.brackets_eq_nil rfl
  unfold Reader.step
  simp only [hspecial, Bool.not_true, Bool.false_eq_true, if_false]
  split
  · next t n hentity =>
    obtain ⟨u, v, rfl, rfl⟩ := semicolon_of_entity? hentity
    exact proceeds_add (s := '&' :: u) h (by decide) hbrackets (by simp [Inline.IsUnlinked])
      (by simp)
  · exact proceeds_add (s := []) h (by decide) hbrackets (by simp [Inline.IsUnlinked]) rfl

theorem run_map_space {t : Text} {v : Watch} (h : w.run strict t = some v) :
    w.run strict (t.map fun c => if c == '\n' then ' ' else c) = some v := by
  induction t generalizing w with
  | nil => exact h
  | cons c t ih =>
    obtain ⟨u, hu, h⟩ := Option.bind_eq_some_iff.1 h
    have hstep : w.step strict (if c == '\n' then ' ' else c) = some u := by
      split_ifs with hc
      · rw [beq_iff_eq.1 hc] at hu
        obtain ⟨rfl, hopened, hslash, htag⟩ := (Watch.step_newline_eq_some_iff rfl).1 hu
        exact Watch.step_blank rfl hopened hslash htag
      · exact hu
    rw [List.map_cons, Watch.run_cons, hstep, Option.bind_some, ih h]

/-- What stands in code that a strict watch lets through is let through itself. -/
theorem isSafe_codeContent {t : Text} (h : IsSafe strict t) : IsSafe strict (codeContent t) := by
  obtain ⟨v, hv⟩ := isSafe_iff.1 h
  have hmap := isSafe_iff.2 ⟨v, run_map_space hv⟩
  unfold codeContent
  dsimp only
  generalize (t.map fun c => if c == '\n' then ' ' else c) = u at hmap
  split_ifs with hspaces
  · simp only [Bool.and_eq_true, beq_iff_eq] at hspaces
    have hu := List.cons_head?_tail hspaces.1.2
    have htail : IsSafe strict u.tail := by
      rw [← hu] at hmap
      exact IsSafe.of_append_right (s := [' ']) (by decide) hmap
    refine IsSafe.of_append (t := u.tail.drop (u.tail.length - 1)) ?_
    rwa [List.dropLast_eq_take, List.take_append_drop]
  · exact hmap

theorem proceeds_ticks (h : r.Fits strict w ('`' :: rest)) (before : Text) :
    Proceeds strict ('`' :: rest) (r.step {} before '`' rest) := by
  obtain ⟨hopened, v, hv⟩ := h.brackets_eq_nil rfl
  obtain ⟨m, after, rfl, hafter⟩ := exists_replicate_append '`' rest
  have hticks : ∀ t : Text, '`' :: (List.replicate m '`' ++ t) = List.replicate m '`' ++ '`' :: t := by
    intro t
    rw [← List.cons_append, ← List.replicate_succ, List.replicate_succ', List.append_assoc]
    rfl
  rw [step_ticks {} r before m hafter]
  obtain ⟨r', hpieces, hbrackets, hread | ⟨u, tail, rfl, hread⟩⟩ := readTicks_cases r (m + 1) after
  · rw [hread]
    rw [hticks] at h ⊢
    exact proceeds_add (h.congr hpieces hbrackets) (by decide) (hbrackets ▸ hopened)
      (by simp [Inline.IsUnlinked]) (by simp)
  · have hspan : '`' :: (List.replicate m '`' ++ (u ++ List.replicate (m + 1) '`' ++ tail)) =
        (List.replicate (m + 1) '`' ++ u ++ List.replicate m '`') ++ '`' :: tail := by
      rw [hticks]
      simp [List.replicate_succ']
    have hcontent : IsSafe strict u := by
      rw [Watch.run_append, Watch.start_run (by simp), Option.bind_some, List.append_assoc] at hv
      obtain ⟨w', hw', -⟩ := Watch.exists_of_run_append hv
      exact isSafe_iff.2 ⟨w', hw'⟩
    rw [hread]
    rw [hspan] at h ⊢
    refine proceeds_add (h.congr hpieces hbrackets) (by decide) (hbrackets ▸ hopened) ?_
      (by simp; omega)
    rw [Inline.IsUnlinked]
    rintro rfl
    exact isSafe_codeContent hcontent

theorem proceeds_lineEnd (h : r.Fits strict w ('\n' :: rest)) (before : Text) :
    Proceeds strict ('\n' :: rest) (readLineEnd r before rest) := by
  have hrest := List.takeWhile_append_dropWhile (p := isIndent) (l := rest)
  have hindent : ∀ c ∈ rest.takeWhile isIndent, isIndent c = true := fun c hc =>
    List.mem_takeWhile_imp hc
  unfold readLineEnd
  dsimp only
  generalize rest.takeWhile isIndent = indent at hrest hindent
  generalize rest.dropWhile isIndent = tail at hrest
  subst hrest
  have hidle : ∀ c ∈ '\n' :: indent, (Sign.of c).isIdle = true := by
    refine List.forall_mem_cons.2 ⟨rfl, fun c hc => ?_⟩
    rcases (by simpa [isIndent] using hindent c hc : c = ' ' ∨ c = '\t') with rfl | rfl <;> rfl
  rw [← List.cons_append] at h
  obtain ⟨w', hw⟩ := h.exists_run
  obtain ⟨hopened, hlast⟩ := run_idle hidle hw
  refine ⟨'\n' :: indent, tail, w', rfl, by simp, by simp [Nat.add_comm],
    h.add hw ?_ (hopened ▸ h.counted) (hlast (by simp))⟩
  split_ifs <;> simp [Inline.IsUnlinked]

theorem proceeds_run (h : r.Fits strict w (c :: rest)) (hc : (Sign.of c).isIdle = true)
    (before : Text) : Proceeds strict (c :: rest) (readRun r c before rest) := by
  have hrest := List.takeWhile_append_dropWhile (p := (· == c)) (l := rest)
  have hrun : ∀ d ∈ rest.takeWhile (· == c), d = c := fun d hd => by
    simpa using List.mem_takeWhile_imp hd
  unfold readRun
  dsimp only
  generalize rest.takeWhile (· == c) = more at hrest hrun
  generalize rest.dropWhile (· == c) = tail at hrest
  subst hrest
  rw [← List.cons_append] at h
  obtain ⟨w', hw⟩ := h.exists_run
  obtain ⟨hopened, hlast⟩ := run_idle (s := c :: more)
    (List.forall_mem_cons.2 ⟨hc, fun d hd => hrun d hd ▸ hc⟩) hw
  refine ⟨c :: more, tail, w', rfl, by simp, by simp, h.pass hw (h.pieces.cons ?_) h.before
    (hopened ▸ h.counted) fun hb => absurd hb (hlast (by simp))⟩
  unfold Run.piece
  split_ifs
  · exact isUnlinked_run _
  · simp [Piece.inline, Inline.IsUnlinked]

theorem readAngle_found (hurl : autolinkUrl? rest = none) (hmail : autolinkMail? rest = none)
    (hraw : rawHtml r.unended rest = .found t) : readAngle r rest =
      (rest.length - t.length + 1, r.add (.html ('<' :: rest.take (rest.length - t.length)))) := by
  unfold readAngle
  simp only [hurl, hmail, hraw]

theorem readAngle_nothing (hurl : autolinkUrl? rest = none) (hmail : autolinkMail? rest = none)
    (hraw : rawHtml r.unended rest = .nothing) :
    readAngle r rest = (1, r.add (.text ['<'])) := by
  unfold readAngle
  simp only [hurl, hmail, hraw]

theorem readAngle_blank (hc : isBlank c = true) :
    readAngle r (c :: rest) = (1, r.add (.text ['<'])) := by
  have hne : ∀ d : Char, isBlank d = false → c ≠ d := by
    rintro d hd rfl
    rw [hd] at hc
    cases hc
  have halpha : c.isAlpha = false := (Bool.or_eq_false_iff.1 (isAlphanum_of_isBlank hc)).1
  have hurl : autolinkUrl? (c :: rest) = none := by simp [autolinkUrl?, halpha]
  have hmail : autolinkMail? (c :: rest) = none := by
    simp [autolinkMail?, isMailNameChar_of_isBlank hc, hne '@' (by decide)]
  have htag : tag? (c :: rest) = none := by
    simp [tag?, openTag?, tagName?, halpha, closeTag?, hne '/' (by decide)]
  refine readAngle_nothing hurl hmail ?_
  rw [rawHtml_of_head, htag]
  · rfl
  · rintro d hd
    cases hd
    exact ⟨hne '!' (by decide), hne '?' (by decide)⟩

section Names

variable {slash name : Text} (hslash : slash = [] ∨ slash = ['/'])
  (hname : ∀ c ∈ name, c.isAlpha = true)

include hslash hname

/-- The beginning of a tag that the text ends in. -/
theorem readAngle_begun : readAngle r (slash ++ name) = (1, r.add (.text ['<'])) := by
  rw [← List.append_nil (slash ++ name)]
  refine readAngle_nothing (autolinkUrl?_eq_none hslash hname (.inl rfl))
    (autolinkMail?_eq_none hslash hname (.inl rfl)) ?_
  rw [rawHtml_name hslash hname (.inl rfl), tag?_name hslash hname (.inl rfl)]
  split_ifs <;> rfl

theorem readAngle_tag (hne : name ≠ []) : readAngle r (slash ++ name ++ '>' :: rest) =
    ((slash ++ name ++ ['>']).length + 1, r.add (.html ('<' :: (slash ++ name ++ ['>'])))) := by
  have htail : '>' :: rest = [] ∨ ∃ t, '>' :: rest = '>' :: t := .inr ⟨rest, rfl⟩
  have hraw : rawHtml r.unended (slash ++ name ++ '>' :: rest) = .found rest := by
    rw [rawHtml_name hslash hname htail, tag?_name hslash hname htail, if_neg hne]
    rfl
  rw [readAngle_found (autolinkUrl?_eq_none hslash hname htail)
    (autolinkMail?_eq_none hslash hname htail) hraw, List.append_cons, List.length_append,
    Nat.add_sub_cancel, List.take_left]

end Names

/-- A less-than sign begins a tag or nothing, but no address. -/
theorem proceeds_angle (h : r.Fits strict w ('<' :: rest)) :
    Proceeds strict ('<' :: rest) (readAngle r rest) := by
  obtain ⟨v, hv⟩ := h.watched
  obtain ⟨w', hw', hv⟩ := Option.bind_eq_some_iff.1 hv
  obtain ⟨rfl, rfl⟩ := step_angle rfl (h.last_ne_backslash (by decide)) hw'
  have hone : Proceeds false ('<' :: rest) (1, r.add (.text ['<'])) :=
    ⟨['<'], rest, ⟨w.opened, .angle⟩, rfl, by simp, rfl,
      h.add (s := ['<']) (by rw [Watch.run_cons, hw']; rfl) (by simp [Inline.IsUnlinked]) h.counted
        (by simp)⟩
  cases angleTail_of_run hv with
  | nil => exact hone
  | blank c t hc => rwa [readAngle_blank hc]
  | begun hslash hname => rwa [readAngle_begun hslash hname]
  | @tag slash name u hslash hne hname hrun =>
    have hw : w.run false ('<' :: (slash ++ name ++ ['>'])) = some ⟨w.opened, .other⟩ := by
      rw [Watch.run_cons, hw', Option.bind_some, hrun]
    rw [readAngle_tag hslash hname hne]
    rw [List.append_cons, ← List.cons_append] at h ⊢
    exact ⟨'<' :: (slash ++ name ++ ['>']), u, ⟨w.opened, .other⟩, rfl, by simp, by simp,
      h.add hw (by simp [Inline.IsUnlinked]) h.counted (by simp)⟩

/-- Whatever is read next, the reader still fits the watch behind it. -/
theorem Reader.Fits.step (h : r.Fits strict w (c :: rest)) (before : Text) :
    Proceeds strict (c :: rest) (r.step {} before c rest) := by
  by_cases hs : isSpecial r.inBrackets c = true
  · have hspecial := hs
    unfold isSpecial at hs
    split at hs
    · exact proceeds_lineEnd h before
    · exact proceeds_run h rfl before
    · exact proceeds_run h rfl before
    · exact proceeds_ticks h before
    · exact proceeds_backslash h
    · exact proceeds_ampersand h before
    · exact proceeds_angle h
    · exact proceeds_open h
    · exact proceeds_close h
    · exact proceeds_exclamation h
    · exact proceeds_run h rfl before
    · have hrun := proceeds_run h rfl before
      unfold Reader.step
      rwa [if_neg (by simp [hspecial])]
    · cases hs
  · unfold Reader.step
    rw [if_pos (by simpa using hs)]
    exact proceeds_text h (by simpa using hs)

theorem Reader.Fits.finish (h : r.Fits strict w rest) : AreUnlinked strict r.finish :=
  areUnlinked_resolve (allPieces_foldl_merge delimits_isUnlinked h.before h.pieces).reverse

theorem Reader.Fits.read (h : r.Fits strict w rest) (before : Text) :
    AreUnlinked strict (r.read {} before 0 rest).finish := by
  induction hn : rest.length using Nat.strongRecOn generalizing w r before rest with
  | _ n ih =>
    rcases rest with _ | ⟨c, rest⟩
    · rw [Reader.read]
      exact h.finish
    · obtain ⟨s, tail, w', hs, hne, htaken, hfits⟩ := h.step before
      obtain ⟨d, s, rfl⟩ := List.exists_cons_of_ne_nil hne
      obtain ⟨rfl, hrest⟩ := List.cons.inj hs
      replace hrest : rest = s ++ tail := hrest
      subst hrest
      rw [Reader.read]
      dsimp only
      rw [htaken, List.length_cons, Nat.add_sub_cancel, read_skip]
      have hlength : tail.length < n := by
        rw [← hn, List.length_cons, List.length_append]
        omega
      exact ih tail.length hlength hfits _ rfl

/-- What a watch lets through has no links when it is read. -/
theorem areUnlinked_ofText {t : Text} (h : IsSafe strict t) :
    AreUnlinked strict (Inline.ofText {} t) := by
  obtain ⟨u, hu⟩ := Reflink.dropEndWhile_initial isSpace t
  rw [← hu] at h
  have hfits : ({} : Reader).Fits strict {} (Text.trimSpaceEnd t) := {
    pieces := by simp [ArePlain]
    before := by simp
    counted := le_rfl
    quiet := fun _ => rfl
    escaped := by simp
    watched := isSafe_iff.1 h.of_append }
  exact hfits.read []

end Characters

end TidyMark.Markdown
