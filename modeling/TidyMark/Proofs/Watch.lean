import Mathlib.Algebra.Ring.Parity
import Mathlib.Data.List.TakeWhile
import Mathlib.Tactic.SplitIfs
import TidyMark.Markdown.TableRow
import TidyMark.Proofs.Verbatim

/-!
# Watching brackets

A watch reads a text as it stands, without knowing what is code and what is a block, and looks out
for what could become a link: a bracket that no backslash escapes and whose closing bracket stands
before a parenthesis or a colon, and a less-than sign that could begin an address. It lets through
a bracket that is closed on its line with no backtick and no ampersand in between, as these might
hide the one bracket and not the other, and tags without attributes.

A strict watch lets no bare bracket and no less-than sign through at all, as a source where every
bracket is escaped allows (`isTame_of_escapesBrackets`).

What the watch lets through may be cut, trimmed and put together in the ways that lines are. Where
it is let through as lines of its own (`IsTame`), the watch goes on behind it as from the start.
-/

namespace TidyMark

open Text Markdown

/-- What a character is for the watch. -/
inductive Sign where
  | backslash
  | opening
  | closing
  | angle
  /-- What may hide other characters: a backtick or an ampersand. -/
  | hiding
  | newline
  /-- What makes a link of brackets before it: a parenthesis or a colon. -/
  | target
  | slash
  | greater
  | space
  | letter
  | other
deriving DecidableEq

def Sign.of (c : Char) : Sign :=
  match c with
  | '\\' => .backslash
  | '[' => .opening
  | ']' => .closing
  | '<' => .angle
  | '`' | '&' => .hiding
  | '\n' | '\r' => .newline
  | '(' | ':' => .target
  | '/' => .slash
  | '>' => .greater
  | c => if isBlank c then .space else if c.isAlpha then .letter else .other

/-- Whether the watch neither counts a character nor waits for what comes behind it. -/
def Sign.isIdle : Sign → Bool
  | .newline | .target | .slash | .greater | .space | .letter | .other => true
  | .backslash | .opening | .closing | .angle | .hiding => false

namespace Watch

/-- What the last character means for the next one. -/
inductive Last where
  | other
  /-- A backslash that is not escaped itself. -/
  | backslash
  /-- The end of brackets that are not escaped. -/
  | closing
  | angle
  /-- The slash of a closing tag. -/
  | slash
  /-- A character of the name of a tag. -/
  | tag
deriving DecidableEq

end Watch

/-- How many brackets are open, and what the last character was. -/
structure Watch where
  opened : Nat := 0
  last : Watch.Last := .other
deriving DecidableEq

namespace Watch

/-- Passes a character that nothing before it has a say in. -/
def pass (strict : Bool) (opened : Nat) : Sign → Option Watch
  | .backslash => some ⟨opened, .backslash⟩
  | .opening => if strict then none else some ⟨opened + 1, .other⟩
  | .closing => some ⟨opened - 1, if 0 < opened then .closing else .other⟩
  | .angle => if strict then none else some ⟨opened, .angle⟩
  | .hiding | .newline => if opened = 0 then some {} else none
  | .target | .slash | .greater | .space | .letter | .other => some ⟨opened, .other⟩

/-- Passes a character behind a backslash. An escaped bracket closes nothing, but what comes behind
it is looked at all the same, since the name of a footnote ends there. -/
def passEscaped (opened : Nat) : Sign → Option Watch
  | .closing => some ⟨opened, if 0 < opened then .closing else .other⟩
  | .hiding | .newline => if opened = 0 then some {} else none
  | .backslash | .opening | .angle | .target | .slash | .greater | .space | .letter | .other =>
    some ⟨opened, .other⟩

/-- Passes a character behind a less-than sign, which a tag or white space must follow. -/
def passAngle (opened : Nat) : Sign → Option Watch
  | .slash => some ⟨opened, .slash⟩
  | .letter => some ⟨opened, .tag⟩
  | .space => some ⟨opened, .other⟩
  | .newline => if opened = 0 then some {} else none
  | .backslash | .opening | .closing | .angle | .hiding | .target | .greater | .other => none

def next (strict : Bool) (w : Watch) (s : Sign) : Option Watch :=
  match w.last with
  | .other => pass strict w.opened s
  | .backslash => passEscaped w.opened s
  | .closing => if s = .target then none else pass strict w.opened s
  | .angle => passAngle w.opened s
  | .slash => if s = .letter then some ⟨w.opened, .tag⟩ else none
  | .tag =>
    if s = .letter then some ⟨w.opened, .tag⟩
    else if s = .greater then some ⟨w.opened, .other⟩ else none

def step (strict : Bool) (w : Watch) (c : Char) : Option Watch :=
  w.next strict (.of c)

/-- Watches a text; there is no watch behind what is not let through. -/
def run (strict : Bool) (w : Watch) : Text → Option Watch
  | [] => some w
  | c :: t => (w.step strict c).bind fun w => run strict w t

end Watch

/-- Whether a text is let through. -/
def IsSafe (strict : Bool) (t : Text) : Prop :=
  ((({} : Watch).run strict t).isSome : Prop)

/-- Whether a text is let through as lines of their own, so that nothing is open behind it. -/
def IsTame (strict : Bool) (t : Text) : Prop :=
  ({} : Watch).run strict (t ++ ['\n']) = some {}

instance (strict : Bool) (t : Text) : Decidable (IsSafe strict t) :=
  inferInstanceAs (Decidable (_ = true))

instance (strict : Bool) (t : Text) : Decidable (IsTame strict t) :=
  inferInstanceAs (Decidable (_ = _))

namespace Watch

variable {strict : Bool} {w w' v v' : Watch} {s t u : Text} {c : Char}

@[simp]
theorem run_nil : w.run strict [] = some w :=
  rfl

theorem run_cons : w.run strict (c :: t) = (w.step strict c).bind fun w => w.run strict t :=
  rfl

theorem run_append : w.run strict (s ++ t) = (w.run strict s).bind fun w => w.run strict t := by
  induction s generalizing w with
  | nil => rfl
  | cons c s ih =>
    rw [List.cons_append, run_cons, run_cons, Option.bind_assoc]
    exact congrArg _ (funext fun v => ih)

theorem exists_of_run_append (h : w.run strict (s ++ t) = some v) :
    ∃ w', w.run strict s = some w' ∧ w'.run strict t = some v := by
  rw [run_append] at h
  exact Option.bind_eq_some_iff.1 h

theorem run_append_of_eq (h : w.run strict s = some w') :
    w.run strict (s ++ t) = w'.run strict t := by
  rw [run_append, h, Option.bind_some]

/-- A watch is no stricter than another one: it has no more brackets open, and it does not stand
before a character that has a meaning only for the other one. -/
structure Le (w w' : Watch) : Prop where
  opened : w.opened ≤ w'.opened
  last : w.last = w'.last ∨ w.last = .other ∧ w'.last ≠ .backslash

theorem Le.refl (w : Watch) : w.Le w :=
  ⟨le_rfl, .inl rfl⟩

theorem Le.pass {n n' : Nat} (h : n ≤ n') {s : Sign} (hv : Watch.pass strict n' s = some v') :
    ∃ v, Watch.pass strict n s = some v ∧ v.Le v' := by
  cases s <;> grind [Watch.pass, Le]

theorem Le.passEscaped {n n' : Nat} (h : n ≤ n') {s : Sign}
    (hv : Watch.passEscaped n' s = some v') :
    ∃ v, Watch.passEscaped n s = some v ∧ v.Le v' := by
  cases s <;> grind [Watch.passEscaped, Le]

theorem Le.next (h : w.Le w') {s : Sign} (hv : w'.next strict s = some v') :
    ∃ v, w.next strict s = some v ∧ v.Le v' := by
  obtain ⟨n, l⟩ := w
  obtain ⟨n', l'⟩ := w'
  obtain ⟨hn, hl⟩ := h
  dsimp only at hn hl
  rcases hl with rfl | ⟨rfl, hl⟩
  · cases l <;> cases s <;> grind [Watch.pass, Watch.passEscaped, Watch.passAngle, Watch.next, Le]
  · cases l' <;> cases s <;> grind [Watch.pass, Watch.passEscaped, Watch.passAngle, Watch.next, Le]

theorem Le.run (h : w.Le w') (hv : w'.run strict t = some v') :
    ∃ v, w.run strict t = some v ∧ v.Le v' := by
  induction t generalizing w w' with
  | nil =>
    cases hv
    exact ⟨w, rfl, h⟩
  | cons c t ih =>
    obtain ⟨u', hu', hv⟩ := Option.bind_eq_some_iff.1 hv
    obtain ⟨u, hu, hle⟩ := h.next hu'
    obtain ⟨v, hrun, hv⟩ := ih hle hv
    exact ⟨v, by rw [run_cons, step, hu, Option.bind_some, hrun], hv⟩

theorem Le.eq_start (h : w.Le {}) : w = {} := by
  obtain ⟨n, l⟩ := w
  obtain ⟨hn, hl⟩ := h
  dsimp only at hn hl
  grind

theorem sign_eq_backslash_iff : Sign.of c = .backslash ↔ c = '\\' := by
  unfold Sign.of
  split <;> simp_all
  split_ifs <;> simp

theorem sign_eq_opening_iff : Sign.of c = .opening ↔ c = '[' := by
  unfold Sign.of
  split <;> simp_all
  split_ifs <;> simp

theorem sign_eq_angle_iff : Sign.of c = .angle ↔ c = '<' := by
  unfold Sign.of
  split <;> simp_all
  split_ifs <;> simp

/-- From the start only a backslash, an opening bracket or a less-than sign leads anywhere. -/
theorem start_step (hb : c ≠ '\\') (ho : c ≠ '[') (ha : c ≠ '<') :
    ({} : Watch).step strict c = some {} := by
  have hb := mt sign_eq_backslash_iff.1 hb
  have ho := mt sign_eq_opening_iff.1 ho
  have ha := mt sign_eq_angle_iff.1 ha
  unfold step next
  cases h : Sign.of c <;> first | rfl | contradiction

theorem start_run (h : ∀ c ∈ s, c ≠ '\\' ∧ c ≠ '[' ∧ c ≠ '<') :
    ({} : Watch).run strict s = some {} := by
  induction s with
  | nil => rfl
  | cons c s ih =>
    obtain ⟨⟨hb, ho, ha⟩, hs⟩ := List.forall_mem_cons.1 h
    rw [run_cons, start_step hb ho ha, Option.bind_some, ih hs]

theorem last_ne_backslash (hc : c ≠ '\\') (h : w.step strict c = some v) : v.last ≠ .backslash := by
  have hc := mt sign_eq_backslash_iff.1 hc
  obtain ⟨n, l⟩ := w
  revert h
  unfold step
  cases l <;> cases hs : Sign.of c <;>
    grind [Watch.pass, Watch.passEscaped, Watch.passAngle, Watch.next]

theorem start_le (h : w.last ≠ .backslash) : ({} : Watch).Le w :=
  ⟨Nat.zero_le _, .inr ⟨rfl, h⟩⟩

/-- Behind a text that does not end with a backslash a watch is no more lenient than at the
start. -/
theorem start_le_of_run (hlast : s.getLast? ≠ some '\\') (h : ({} : Watch).run strict s = some w) :
    ({} : Watch).Le w := by
  rcases s.eq_nil_or_concat with rfl | ⟨s, c, rfl⟩
  · cases h
    exact .refl _
  · rw [List.concat_eq_append] at h hlast
    obtain ⟨v, -, hv⟩ := exists_of_run_append h
    obtain ⟨v', hv', h⟩ := Option.bind_eq_some_iff.1 hv
    cases h
    exact start_le (last_ne_backslash (by simpa using hlast) hv')

/-- The end of a line is let through only where nothing is open, and leaves nothing open. -/
theorem step_newline_eq_some_iff (hc : Sign.of c = .newline) : w.step strict c = some v ↔
    v = {} ∧ w.opened = 0 ∧ w.last ≠ .slash ∧ w.last ≠ .tag := by
  obtain ⟨n, l⟩ := w
  unfold step
  rw [hc]
  cases l <;> simp [next, pass, passEscaped, passAngle, and_comm, eq_comm]

/-- What is neither a bracket nor a part of a tag leaves the brackets as they are. -/
theorem opened_of_step_neutral (hc : Sign.of c ∈ [.space, .newline, .other])
    (h : w.step strict c = some v) : (v.opened = 0 → w.opened = 0) ∧ w.last ≠ .slash ∧ w.last ≠ .tag := by
  obtain ⟨n, l⟩ := w
  revert h
  unfold step
  simp only [List.mem_cons, List.not_mem_nil, or_false] at hc
  rcases hc with hs | hs | hs <;> rw [hs] <;> cases l <;>
    grind [Watch.pass, Watch.passEscaped, Watch.passAngle, Watch.next]

theorem sign_of_isBlank (hc : isBlank c = true) : Sign.of c = .space ∨ Sign.of c = .newline := by
  unfold Sign.of
  split <;> first | exact absurd hc (by decide) | simp [hc]

theorem step_blank (hc : isBlank c = true) (ho : w.opened = 0) (hslash : w.last ≠ .slash)
    (htag : w.last ≠ .tag) : w.step strict c = some {} := by
  obtain ⟨n, l⟩ := w
  unfold step
  rcases sign_of_isBlank hc with hs | hs <;> rw [hs] <;> cases l <;>
    grind [Watch.pass, Watch.passEscaped, Watch.passAngle, Watch.next]

/-- A bar is passed in the same way with a backslash before it. -/
theorem run_bar : w.run strict ('\\' :: '|' :: t) = w.run strict ('|' :: t) := by
  obtain ⟨n, l⟩ := w
  cases l <;> rfl

theorem run_unescapeBars : w.run strict (unescapeBars t) = w.run strict t := by
  induction t using unescapeBars.induct generalizing w with
  | case1 rest ih =>
    rw [unescapeBars, run_bar, run_cons, run_cons]
    exact congrArg _ (funext fun v => ih)
  | case2 c rest hne ih =>
    rw [unescapeBars, run_cons, run_cons]
    · exact congrArg _ (funext fun v => ih)
    · exact hne
  | case3 => rfl

theorem run_escapeBars : w.run strict (replaceChar '|' "\\|" t) = w.run strict t := by
  induction t generalizing w with
  | nil => rfl
  | cons c t ih =>
    have ih' : (fun v : Watch => v.run strict (replaceChar '|' "\\|" t)) =
        fun v : Watch => v.run strict t := funext fun v => ih
    by_cases hc : c = '|'
    · subst hc
      change w.run strict ('\\' :: '|' :: replaceChar '|' "\\|" t) = _
      rw [run_bar, run_cons, ih', ← run_cons]
    · rw [replaceChar_of_ne hc, run_cons, ih', ← run_cons]

theorem step_of_strict (h : w.step true c = some v) : w.step false c = some v := by
  obtain ⟨n, l⟩ := w
  revert h
  unfold step
  cases l <;> cases Sign.of c <;> simp [next, pass]

/-- A strict watch lets no bracket be open. -/
theorem opened_of_run_strict (hw : w.opened = 0) (h : w.run true t = some v) : v.opened = 0 := by
  induction t generalizing w with
  | nil =>
    cases h
    exact hw
  | cons c t ih =>
    obtain ⟨u, hu, h⟩ := Option.bind_eq_some_iff.1 h
    refine ih ?_ h
    obtain ⟨n, l⟩ := w
    revert hu hw
    unfold step
    cases l <;> cases Sign.of c <;>
      grind [Watch.pass, Watch.passEscaped, Watch.passAngle, Watch.next]

/-- Behind what a strict watch lets through only a backslash can have a say. -/
theorem last_of_run_strict (hw : w.opened = 0) (hlast : w.last = .other ∨ w.last = .backslash)
    (h : w.run true t = some v) : v.last = .other ∨ v.last = .backslash := by
  induction t generalizing w with
  | nil =>
    cases h
    exact hlast
  | cons c t ih =>
    obtain ⟨u, hu, h⟩ := Option.bind_eq_some_iff.1 h
    have hopened : u.opened = 0 := opened_of_run_strict hw (t := [c]) (by rw [run_cons, hu]; rfl)
    refine ih hopened ?_ h
    obtain ⟨n, l⟩ := w
    revert hu hw
    unfold step
    rcases hlast with rfl | rfl <;> cases Sign.of c <;>
      grind [Watch.pass, Watch.passEscaped, Watch.next]

/-- A watch that is not strict lets through whatever a strict one does. -/
theorem run_of_strict (h : w.run true t = some v) : w.run strict t = some v := by
  cases strict with
  | true => exact h
  | false =>
    induction t generalizing w with
    | nil => exact h
    | cons c t ih =>
      obtain ⟨u, hu, h⟩ := Option.bind_eq_some_iff.1 h
      rw [run_cons, step_of_strict hu, Option.bind_some, ih h]

end Watch

section Texts

variable {strict : Bool} {s t u : Text} {c : Char}

theorem isTame_iff : IsTame strict t ↔ ∃ w : Watch, ({} : Watch).run strict t = some w ∧
    w.opened = 0 ∧ w.last ≠ .slash ∧ w.last ≠ .tag := by
  unfold IsTame
  rw [Watch.run_append, Option.bind_eq_some_iff]
  refine exists_congr fun w => and_congr_right fun _ => ?_
  rw [Watch.run_cons, Option.bind_eq_some_iff]
  simp [Watch.step_newline_eq_some_iff (c := '\n') rfl]

theorem IsTame.isSafe (h : IsTame strict t) : IsSafe strict t := by
  obtain ⟨w, hw, -⟩ := isTame_iff.1 h
  simp [IsSafe, hw]

theorem isSafe_iff : IsSafe strict t ↔ ∃ w : Watch, ({} : Watch).run strict t = some w :=
  Option.isSome_iff_exists

theorem isTame_nil : IsTame strict [] := by
  cases strict <;> decide

/-- A text is tame if both what stands before a line feed and what stands behind it are. -/
theorem isTame_append_newline :
    IsTame strict (s ++ '\n' :: t) ↔ IsTame strict s ∧ IsTame strict t := by
  have happend : s ++ '\n' :: t ++ ['\n'] = (s ++ ['\n']) ++ (t ++ ['\n']) := by simp
  unfold IsTame
  rw [happend, Watch.run_append]
  constructor
  · intro h
    obtain ⟨w, hw, hrun⟩ := Option.bind_eq_some_iff.1 h
    obtain ⟨v, -, hv⟩ := Watch.exists_of_run_append hw
    obtain ⟨v', hv', h⟩ := Option.bind_eq_some_iff.1 hv
    obtain ⟨rfl, -⟩ := (Watch.step_newline_eq_some_iff rfl).1 hv'
    cases h
    exact ⟨hw, hrun⟩
  · rintro ⟨hs, ht⟩
    rw [hs, Option.bind_some, ht]

theorem IsSafe.of_append (h : IsSafe strict (s ++ t)) : IsSafe strict s := by
  obtain ⟨v, hv⟩ := isSafe_iff.1 h
  obtain ⟨w, hw, -⟩ := Watch.exists_of_run_append hv
  exact isSafe_iff.2 ⟨w, hw⟩

theorem IsSafe.of_append_right (hlast : s.getLast? ≠ some '\\') (h : IsSafe strict (s ++ t)) :
    IsSafe strict t := by
  obtain ⟨v, hv⟩ := isSafe_iff.1 h
  obtain ⟨w, hw, hv⟩ := Watch.exists_of_run_append hv
  obtain ⟨v', hv', -⟩ := (Watch.start_le_of_run hlast hw).run hv
  exact isSafe_iff.2 ⟨v', hv'⟩

theorem IsTame.of_append_right (hlast : s.getLast? ≠ some '\\')
    (h : IsTame strict (s ++ t)) : IsTame strict t := by
  unfold IsTame at h
  rw [List.append_assoc] at h
  obtain ⟨w, hw, hv⟩ := Watch.exists_of_run_append h
  obtain ⟨v, hv, hle⟩ := (Watch.start_le_of_run hlast hw).run hv
  rw [IsTame, hv, hle.eq_start]

/-- What the watch passes without a trace may stand before a text. -/
theorem isTame_append_of_start (hs : ({} : Watch).run strict s = some {}) :
    IsTame strict (s ++ t) ↔ IsTame strict t := by
  unfold IsTame
  rw [List.append_assoc, Watch.run_append_of_eq hs]

/-- A text stays tame without what cannot close a bracket or a tag at its end. -/
theorem IsTame.of_append_neutral : ∀ {s t : Text},
    (∀ c ∈ s, Sign.of c ∈ [.space, .newline, .other]) → IsTame strict (t ++ s) →
      IsTame strict t
  | [], t, _, h => by rwa [List.append_nil] at h
  | c :: s, t, hs, h => by
    obtain ⟨hc, hs⟩ := List.forall_mem_cons.1 hs
    have hconcat : IsTame strict ((t ++ [c]) ++ s) := by rwa [List.append_assoc]
    obtain ⟨v, hv, hopened, -⟩ := isTame_iff.1 (hconcat.of_append_neutral hs)
    obtain ⟨w, hw, hv⟩ := Watch.exists_of_run_append hv
    obtain ⟨v', hv', h⟩ := Option.bind_eq_some_iff.1 hv
    cases h
    obtain ⟨ho, hlast⟩ := Watch.opened_of_step_neutral hc hv'
    exact isTame_iff.2 ⟨w, hw, ho hopened, hlast⟩

theorem neutral_of_isBlank (h : isBlank c = true) : Sign.of c ∈ [.space, .newline, .other] := by
  rcases Watch.sign_of_isBlank h with hs | hs <;> simp [hs]

theorem IsTame.of_append_blank (hs : ∀ c ∈ s, isBlank c = true)
    (h : IsTame strict (t ++ s)) : IsTame strict t :=
  h.of_append_neutral fun c hc => neutral_of_isBlank (hs c hc)

/-- White space may stand behind a tame text. -/
theorem IsTame.append_blank : ∀ {s t : Text}, IsTame strict t →
    (∀ c ∈ s, isBlank c = true) → IsTame strict (t ++ s)
  | [], t, h, _ => by rwa [List.append_nil]
  | c :: s, t, h, hs => by
    obtain ⟨hc, hs⟩ := List.forall_mem_cons.1 hs
    obtain ⟨w, hw, hopened, hslash, htag⟩ := isTame_iff.1 h
    rw [List.append_cons]
    refine IsTame.append_blank (isTame_iff.2 ⟨{}, ?_, rfl, by decide, by decide⟩) hs
    rw [Watch.run_append_of_eq hw, Watch.run_cons, Watch.step_blank hc hopened hslash htag]
    rfl

end Texts

section Lines

variable {strict : Bool} {s t : Text}

/-- Whether a text is tame and lines may be put behind it. -/
def IsReady (strict : Bool) (t : Text) : Prop :=
  ({} : Watch).run strict t = some {}

instance (strict : Bool) (t : Text) : Decidable (IsReady strict t) :=
  inferInstanceAs (Decidable (_ = _))

theorem isReady_nil : IsReady strict [] :=
  rfl

theorem IsReady.isTame (h : IsReady strict t) : IsTame strict t :=
  isTame_iff.2 ⟨{}, h, rfl, by decide, by decide⟩

/-- A line may be put behind lines. -/
theorem IsReady.append (hs : IsReady strict s) (ht : IsTame strict t) :
    IsReady strict (s ++ (t ++ ['\n'])) := by
  rw [IsReady, Watch.run_append_of_eq hs, ht]

theorem isReady_line (ht : IsTame strict t) : IsReady strict (t ++ ['\n']) :=
  isReady_nil.append ht

theorem getLast?_ne_of_forall {s : Text} (h : ∀ d ∈ s, d ≠ '\\') : s.getLast? ≠ some '\\' :=
  fun hs => h _ (List.mem_of_getLast? hs) rfl

theorem exists_reverse_dropWhile {α : Type} (p : α → Bool) (l : List α) :
    ∃ s, l = (l.reverse.dropWhile p).reverse ++ s ∧ ∀ a ∈ s, p a = true := by
  refine ⟨(l.reverse.takeWhile p).reverse, ?_, fun a ha =>
    List.mem_takeWhile_imp (List.mem_reverse.1 ha)⟩
  rw [← List.reverse_append, List.takeWhile_append_dropWhile, List.reverse_reverse]

theorem isTame_dropEndWhile {p : Char → Bool}
    (hp : ∀ c, p c = true → Sign.of c ∈ [.space, .newline, .other]) (h : IsTame strict t) :
    IsTame strict (Text.dropEndWhile p t) := by
  obtain ⟨s, hs, hall⟩ := exists_reverse_dropWhile p t
  rw [hs] at h
  exact h.of_append_neutral fun c hc => hp c (hall c hc)

theorem isBlank_of_isSpace {c : Char} (h : isSpace c = true) : isBlank c = true := by
  by_contra hb
  rw [isSpace_of_not_isBlank (Bool.eq_false_iff.2 hb)] at h
  cases h

theorem isTame_trimSpaceEnd (h : IsTame strict t) : IsTame strict (Text.trimSpaceEnd t) :=
  isTame_dropEndWhile (fun _ hc => neutral_of_isBlank (isBlank_of_isSpace hc)) h

theorem isTame_dropNewlines (h : IsTame strict t) :
    IsTame strict (Text.dropEndWhile (· == '\n') t) :=
  isTame_dropEndWhile (fun c hc => by rw [beq_iff_eq.1 hc]; decide) h

end Lines

section Sources

variable {strict : Bool} {t source : Text} {w : Watch}

theorem sign_readAs (c : Char) : Sign.of (readAs c) = Sign.of c := by
  unfold readAs
  split_ifs with h
  · have hc : c = Char.ofNat 0 := by
      rw [← Char.ofNat_toNat c, beq_iff_eq.1 h]
    rw [hc]
    decide
  · rfl

theorem go_ne_nil : ∀ t : Text, sourceLines.go true t ≠ []
  | [] => by simp [sourceLines.go]
  | c :: t => by fun_cases sourceLines.go true (c :: t) <;> simp_all

/-- What a watch that has read `w` lets through as lines: the first of them, which may have been
begun before, and every other one on its own. -/
structure AreTame (strict : Bool) (w : Watch) (lines : List Text) : Prop where
  first : ∀ line ∈ lines.head?, w.run strict (line ++ ['\n']) = some {}
  others : ∀ line ∈ lines.tail, IsTame strict line

section Watched

variable {c : Char} {v : Watch} {line : Text} {lines : List Text}

theorem AreTame.forall_isTame (h : AreTame strict {} lines) :
    ∀ line ∈ lines, IsTame strict line := by
  rcases lines with _ | ⟨line, lines⟩
  · simp
  · exact List.forall_mem_cons.2 ⟨h.first line rfl, h.others⟩

/-- Behind the end of a line the watch goes on as from the start. -/
theorem AreTame.endLine (hc : Sign.of c = .newline) (hv : w.step strict c = some v)
    (h : AreTame strict v lines) : AreTame strict w ([] :: lines) := by
  obtain ⟨rfl, hw⟩ := (Watch.step_newline_eq_some_iff hc).1 hv
  have hstep : w.step strict '\n' = some {} := (Watch.step_newline_eq_some_iff rfl).2 ⟨rfl, hw⟩
  refine ⟨fun line hl => ?_, h.forall_isTame⟩
  cases hl
  simp [Watch.run_cons, hstep]

/-- A character is added to the line that it stands in. -/
theorem AreTame.readAs (hv : w.step strict c = some v) (h : AreTame strict v (line :: lines)) :
    AreTame strict w ((readAs c :: line) :: lines) := by
  refine ⟨fun l hl => ?_, h.others⟩
  cases hl
  rw [List.cons_append, Watch.run_cons, Watch.step, sign_readAs, ← Watch.step, hv,
    Option.bind_some, h.first line rfl]

end Watched

theorem areTame_go (begun : Bool) (t : Text) : ∀ {w : Watch},
    w.run strict (t ++ ['\n']) = some {} → AreTame strict w (sourceLines.go begun t) := by
  fun_induction sourceLines.go begun t with
  | case1 => exact fun h => ⟨by simpa using h, by simp⟩
  | case2 => exact fun _ => ⟨by simp, by simp⟩
  | case3 _ rest ih =>
    intro w h
    obtain ⟨v, hv, h⟩ := Option.bind_eq_some_iff.1 h
    -- The carriage return ends the line, and the line feed behind it counts for nothing.
    obtain ⟨rfl, -⟩ := (Watch.step_newline_eq_some_iff rfl).1 hv
    obtain ⟨v, hv', h⟩ := Option.bind_eq_some_iff.1 h
    obtain ⟨rfl, -⟩ := (Watch.step_newline_eq_some_iff rfl).1 hv'
    exact .endLine rfl hv (ih h)
  | case4 _ c rest _ hc ih =>
    intro w h
    have hsign : Sign.of c = .newline := by
      rcases (by simpa using hc : c = '\n' ∨ c = '\r') with rfl | rfl <;> rfl
    obtain ⟨v, hv, h⟩ := Option.bind_eq_some_iff.1 h
    exact .endLine hsign hv (ih h)
  | case5 _ c rest _ hc _ hlines => exact absurd hlines (go_ne_nil rest)
  | case6 _ c rest _ hc _ line lines hlines =>
    rename_i ih
    intro w h
    obtain ⟨v, hv, h⟩ := Option.bind_eq_some_iff.1 h
    exact .readAs hv (hlines ▸ ih h)

/-- The lines of a tame source are tame. -/
theorem IsTame.of_mem_sourceLines (h : IsTame strict source) :
    ∀ line ∈ sourceLines source, IsTame strict line :=
  (areTame_go false source h).forall_isTame

/-- Whether every opening bracket is escaped: the backslashes before it are odd in number. -/
def EscapesBrackets (source : Text) : Prop :=
  ∀ u v, source = u ++ '[' :: v → Odd (u.reverse.takeWhile (· == '\\')).length

theorem escapesBrackets_iff : EscapesBrackets source ↔ ∀ i < source.length, source[i]? = some '[' →
    Odd ((source.take i).reverse.takeWhile (· == '\\')).length := by
  constructor
  · intro h i hi hc
    refine h _ (source.drop (i + 1)) ?_
    rw [List.getElem?_eq_getElem hi, Option.some_inj] at hc
    rw [← hc, List.getElem_cons_drop, List.take_append_drop]
  · rintro h u v rfl
    have hu := h u.length (by simp) (by simp)
    rwa [List.take_left'  rfl] at hu

instance (source : Text) : Decidable (EscapesBrackets source) :=
  decidable_of_iff' _ escapesBrackets_iff

theorem EscapesBrackets.of_append {s : Text} (h : EscapesBrackets (s ++ t)) : EscapesBrackets s :=
  fun u v hs => h u (v ++ t) (by rw [hs, List.append_assoc, List.cons_append])

/-- Where every bracket is escaped, all that is ever open is a backslash. -/
theorem run_of_escapesBrackets (ha : '<' ∉ t) (h : EscapesBrackets t) :
    ({} : Watch).run true t =
      some ⟨0, if Odd (t.reverse.takeWhile (· == '\\')).length then .backslash else .other⟩ := by
  induction t using List.reverseRecOn with
  | nil => simp
  | append_singleton t c ih =>
    rw [List.mem_append, List.mem_singleton, not_or] at ha
    rw [Watch.run_append, ih ha.1 h.of_append, Option.bind_some, Watch.run_cons, List.reverse_concat,
      List.takeWhile_cons]
    by_cases hc : c = '\\'
    · subst hc
      simp only [beq_self_eq_true, if_true, List.length_cons, Nat.odd_add_one]
      split_ifs <;> rfl
    have hsign : Sign.of c ≠ .backslash ∧ Sign.of c ≠ .angle := by
      rw [Ne, Watch.sign_eq_backslash_iff, Ne, Watch.sign_eq_angle_iff]
      exact ⟨hc, Ne.symm ha.2⟩
    have hopening : Sign.of c = .opening → Odd (t.reverse.takeWhile (· == '\\')).length := by
      intro ho
      rw [Watch.sign_eq_opening_iff.1 ho] at h
      exact h t [] rfl
    have heven : ¬ Odd (0 : Nat) := by decide
    simp only [beq_iff_eq, hc, if_false, List.length_nil, heven]
    unfold Watch.step Watch.next
    split_ifs with hodd <;> cases hs : Sign.of c <;>
      first | rfl | exact absurd (hopening hs) hodd | exact absurd hs (by simp [hsign])

/-- A source in which every bracket is escaped is let through by a strict watch. -/
theorem isTame_of_escapesBrackets (ha : '<' ∉ source) (h : EscapesBrackets source) :
    IsTame true source := by
  refine isTame_iff.2 ⟨_, run_of_escapesBrackets ha h, rfl, ?_, ?_⟩ <;> dsimp only <;> split_ifs <;>
    decide

end Sources

end TidyMark
