import Mathlib.Tactic.FinCases
import Mathlib.Tactic.IntervalCases
import TidyMark.Proofs.Ordinals

/-!
# The markers of items

A marker is written for a reader: the expander looks for items to tell what is code from what is
the inside of a list, and the parser reads the lists again. Both take every ordinal of nine digits
or fewer and three of the four bullets. The fourth, a tilde, is a bullet to the rules alone, so an
item is found again unless its depth and the shift of its list lead there
(`isListItem_written`).
-/

namespace TidyMark

namespace Render

open Markdown (listMarker?)

/-- The bullets that the items of a list can have, by the depth and the shift. A byline has the one
that ordinary items have two levels below, if that is not the tilde. -/
def bulletsAt (n : Nat) : List Char :=
  match n % 4 with
  | 0 | 2 => ['*', '+']
  | 1 => ['-']
  | _ => ['~']

namespace Call

/-- The shift of the list that an item belongs to. -/
def shift (c : Call) : Nat :=
  (c.state.lists.head?.map (·.shift)).getD 0

def isOrdinal (c : Call) : Bool :=
  c.state.lists.head?.any (·.ordered)

/-- Whether an item is due the last bullet of the cycle. -/
def isTilde (c : Call) : Bool :=
  !c.isOrdinal && (visualLevel c.sight.token.level + c.shift) % 4 == 3

end Call

section Bullets

variable {setting : Setting} {c : Call}

theorem bulletsAt_eq_tilde {n : Nat} (h : n % 4 = 3) : bulletsAt n = ['~'] := by
  simp only [bulletsAt, h]

theorem bulletsAt_subset {n : Nat} (h : n % 4 ≠ 3) : bulletsAt n ⊆ ['-', '+', '*'] := by
  have hn : n % 4 < 3 := by omega
  unfold bulletsAt
  interval_cases n % 4 <;> decide

theorem bullet_mem (options : Options) (s : Sight) (shift : Nat) :
    listItemOpen.bullet options s shift ∈ bulletsAt (visualLevel s.token.level + shift) := by
  unfold listItemOpen.bullet bulletFor bulletsAt
  generalize visualLevel s.token.level + shift = n
  have hn : n % 4 < 4 := Nat.mod_lt n (by decide)
  split_ifs
  · show bylineBullets.getD (n % 4) '*' ∈ _
    interval_cases n % 4 <;> decide
  · show bullets.getD (n % 4) '*' ∈ _
    interval_cases n % 4 <;> decide

theorem written_of_bullets (hk : c.kind = .opening .listItem) (ho : c.isOrdinal = false) :
    c.written setting = [listItemOpen.bullet setting.options c.sight c.shift, ' '] := by
  have hk : c.sight.token.kind = .opening .listItem := hk
  rw [Call.written, rule, hk]
  unfold Call.isOrdinal at ho
  unfold Call.shift
  dsimp only [openRule, listItemOpen]
  cases hl : c.state.lists with
  | nil => rfl
  | cons f frames =>
    have hf : f.ordered = false := by simpa [hl] using ho
    simp [hf]

end Bullets

section Reading

variable {n : Nat} {d : Char} {rest : Text}

theorem isListItem_bullet (hd : d ∈ ['-', '+', '*']) :
    Reflink.isListItem (d :: ' ' :: rest) = true := by
  fin_cases hd <;> rfl

theorem listMarker?_bullet (hd : d ∈ ['-', '+', '*']) :
    listMarker? false (d :: ' ' :: rest) = some (.bullet d, 1) := by
  fin_cases hd <;> rfl

theorem isListItem_tilde : Reflink.isListItem ('~' :: rest) = false :=
  rfl

theorem listMarker?_tilde : listMarker? false ('~' :: rest) = none :=
  rfl

theorem toNat_of_charIsDigit {c : Char} (hc : c.isDigit = true) : c.toNat < 128 := by
  simp only [Char.isDigit, Bool.and_eq_true, decide_eq_true_eq, UInt32.le_iff_toNat_le] at hc
  have hle : c.toNat ≤ 57 := hc.2
  omega

theorem isDigit_of_charIsDigit {c : Char} (hc : c.isDigit = true) : isDigit c = true := by
  have hascii : isAscii c = true := decide_eq_true (toNat_of_charIsDigit hc)
  rw [isDigit, if_pos hascii, hc]

theorem not_mem_of_isDigit {c : Char} (hc : c.isDigit = true) : c ∉ [' ', '-', '+', '*'] :=
  fun h => by fin_cases h <;> exact absurd hc (by decide)

/-- An ordinal begins with a digit, has only digits, and nine at most below a billion. -/
theorem exists_ofNat_eq_cons (hn : n < 10 ^ 9) :
    ∃ c t, Text.ofNat n = c :: t ∧ c ∉ [' ', '-', '+', '*'] ∧
      (∀ e ∈ c :: t, e.isDigit = true) ∧ (c :: t).length ≤ 9 := by
  obtain ⟨c, t, ht⟩ := List.exists_cons_of_ne_nil (show Text.ofNat n ≠ [] from Nat.toDigits_ne_nil)
  have hdigits : ∀ e ∈ c :: t, e.isDigit = true := fun e he =>
    Nat.isDigit_of_mem_toDigits (by decide) (by decide) (ht ▸ he : e ∈ Text.ofNat n)
  refine ⟨c, t, ht, not_mem_of_isDigit (hdigits c List.mem_cons_self), hdigits, ?_⟩
  rw [← ht]
  exact (Nat.length_toDigits_le_iff (by decide) (by decide)).2 hn

theorem isListItem_ordinal (hn : n < 10 ^ 9) (hd : d ∈ ['.', ')']) :
    Reflink.isListItem (Text.ofNat n ++ d :: ' ' :: rest) = true := by
  obtain ⟨c, t, ht, hc, hdigits, hlength⟩ := exists_ofNat_eq_cons hn
  have hdigits : ∀ e ∈ c :: t, isDigit e = true := fun e he => isDigit_of_charIsDigit (hdigits e he)
  have hstop : ¬isDigit d = true ∧ (d == '.' || d == ')') = true := by fin_cases hd <;> decide
  have htake : (c :: (t ++ d :: ' ' :: rest)).takeWhile isDigit = c :: t := by
    rw [← List.cons_append, List.takeWhile_append_of_pos hdigits,
      List.takeWhile_cons_of_neg hstop.1, List.append_nil]
  have hdrop : (c :: (t ++ d :: ' ' :: rest)).dropWhile isDigit = d :: ' ' :: rest := by
    rw [← List.cons_append, List.dropWhile_append_of_pos hdigits,
      List.dropWhile_cons_of_neg hstop.1]
  simp only [List.mem_cons, List.not_mem_nil, or_false, not_or] at hc
  rw [ht, List.cons_append, Reflink.isListItem, List.takeWhile_cons_of_neg (by simpa using hc.1),
    List.dropWhile_cons_of_neg (by simpa using hc.1)]
  dsimp only
  rw [htake, hdrop, if_neg (by simp [hc])]
  dsimp only
  rw [hstop.2]
  simpa [Reflink.endsMarker, isIndent] using hlength

theorem listMarker?_ordinal (hn : n < 10 ^ 9) (hd : d ∈ ['.', ')']) :
    listMarker? false (Text.ofNat n ++ d :: ' ' :: rest) =
      some (.ordinal n d, (Text.ofNat n).length + 1) := by
  obtain ⟨c, t, ht, hc, hdigits, hlength⟩ := exists_ofNat_eq_cons hn
  have hstop : ¬d.isDigit = true ∧ (d == '.' || d == ')') = true := by fin_cases hd <;> decide
  have htake : ((c :: (t ++ d :: ' ' :: rest)).takeWhile Char.isDigit).take 9 = c :: t := by
    rw [← List.cons_append, List.takeWhile_append_of_pos hdigits,
      List.takeWhile_cons_of_neg hstop.1, List.append_nil, List.take_of_length_le hlength]
  have hdecimal : Markdown.decimal (c :: t) = n := by
    rw [← ht]
    exact Nat.ofDigitChars_ten_toDigits
  simp only [List.mem_cons, List.not_mem_nil, or_false, not_or] at hc
  rw [ht, List.cons_append, listMarker?, if_neg (by simp [hc])]
  dsimp only
  rw [htake, ← List.cons_append, List.drop_left]
  simp [hstop.2, hdecimal, Markdown.endsListMarker, isSpace]

end Reading

section Owners

variable {setting : Setting} {state state' : State} {cs : List Call} {c : Call}

/-- Every item belongs to one of the lists that are open before these calls, to one that is opened
by them, or to none. -/
theorem mem_directItems (h : Runs setting state cs state') (hc : c ∈ cs)
    (hk : c.kind = .opening .listItem) :
    c.state.lists = [] ∨ (∃ depth < state.lists.length, c ∈ directItems depth cs) ∨
      ∃ ordered opening rest, opening :: rest <:+ cs ∧
        opening.kind.listTurn? = some (.opens ordered) ∧ c ∈ directItems 0 rest := by
  induction h with
  | nil => simp at hc
  | @cons c₀ cs state state' hstate _ ih =>
    subst hstate
    rcases List.mem_cons.1 hc with rfl | hc
    · have hturn : c.kind.listTurn? = some .item := listTurn?_eq_item_iff.2 hk
      rcases hl : c.state.lists with _ | ⟨f, frames⟩
      · exact .inl rfl
      · refine .inr (.inl ⟨0, by simp, ?_⟩)
        simp only [directItems, hturn, List.mem_cons_self]
    rcases ih hc with hnone | ⟨depth, hdepth, hmem⟩ | ⟨ordered, opening, rest, hs, hopens, hmem⟩
    · exact .inl hnone
    · rcases hturn : c₀.kind.listTurn? with _ | ordered | _ | _
      · rw [lists_next_of_none hturn] at hdepth
        refine .inr (.inl ⟨depth, hdepth, ?_⟩)
        simpa only [directItems, hturn] using hmem
      · rw [lists_next_of_opens hturn, List.length_cons] at hdepth
        cases depth with
        | zero => exact .inr (.inr ⟨ordered, c₀, cs, List.suffix_refl _, hturn, hmem⟩)
        | succ depth =>
          refine .inr (.inl ⟨depth, by omega, ?_⟩)
          simpa only [directItems, hturn] using hmem
      · rw [(lists_next_of_closes hturn).1, List.length_tail] at hdepth
        refine .inr (.inl ⟨depth + 1, by omega, ?_⟩)
        simpa only [directItems, hturn] using hmem
      · rw [lists_next_of_item hturn, List.length_modifyHead] at hdepth
        refine .inr (.inl ⟨depth, hdepth, ?_⟩)
        cases depth with
        | zero =>
          simp only [directItems, hturn]
          exact List.mem_cons_of_mem _ hmem
        | succ depth => simpa only [directItems, hturn] using hmem
    · exact .inr (.inr ⟨ordered, opening, rest, hs.trans (List.suffix_cons _ _), hopens, hmem⟩)

theorem length_directItems_le (depth : Nat) (cs : List Call) :
    (directItems depth cs).length ≤ cs.length := by
  induction depth, cs using directItems.induct <;> simp_all [directItems] <;> omega

end Owners

/-- No ordered list that these calls open has a billion items. -/
def HasFewItems (cs : List Call) : Prop :=
  ∀ opening rest, opening :: rest <:+ cs → opening.kind = .opening .orderedList →
    (directItems 0 rest).length < 10 ^ 9

section Marking

variable {setting : Setting} {tokens : List Token}

/-- The ordinal of an item is at most the number of the items of its list. -/
theorem next_lt_of_hasFewItems (few : HasFewItems (callsAll setting tokens)) {c : Call}
    (hc : c ∈ callsAll setting tokens) (hk : c.kind = .opening .listItem) {f : ListFrame}
    (hf : c.state.lists.head? = some f) (ho : f.ordered = true) : f.next < 10 ^ 9 := by
  obtain ⟨state', hrun⟩ := exists_runs_callsAll setting tokens
  rcases mem_directItems hrun hc hk with
    hnone | ⟨depth, hdepth, -⟩ | ⟨ordered, opening, rest, hs, hopens, hmem⟩
  · simp [hnone] at hf
  · simp at hdepth
  · obtain ⟨i, hi⟩ := List.mem_iff_getElem?.1 hmem
    obtain ⟨-, hhead⟩ := head?_lists_of_directItems (hrun.of_suffix hs) [] _ (opening.frame ordered)
      (lists_next_of_opens hopens) i c hi
    obtain rfl : f = (opening.frame ordered).after i := Option.some.inj (hf.symm.trans hhead)
    rw [ordered_after] at ho
    obtain rfl : ordered = true := ho
    have hlength := few opening rest hs (listTurn?_eq_opens_iff.1 hopens)
    have hi := (List.getElem?_eq_some_iff.1 hi).1
    rw [next_after rfl]
    show 1 + i < 10 ^ 9
    omega

/-- An item is read again from its marker, whatever follows, unless it has a tilde. -/
theorem isListItem_written (few : HasFewItems (callsAll setting tokens)) {c : Call}
    (hc : c ∈ callsAll setting tokens) (hk : c.kind = .opening .listItem) (rest : Text) :
    Reflink.isListItem (c.written setting ++ rest) = !c.isTilde ∧
      (listMarker? false (c.written setting ++ rest)).map (·.2) =
        if c.isTilde then none else some ((c.written setting).length - 1) := by
  cases ho : c.isOrdinal with
  | true =>
    obtain ⟨f, hf, hordered⟩ : ∃ f, c.state.lists.head? = some f ∧ f.ordered = true := by
      simpa [Call.isOrdinal, Option.any_eq_true] using ho
    have hn := next_lt_of_hasFewItems few hc hk hf hordered
    have hd := delimiter_mem f
    rw [written_of_ordered hk hf hordered, List.append_assoc]
    simp [isListItem_ordinal hn hd, listMarker?_ordinal hn hd, Call.isTilde, ho]
  | false =>
    have hbullet := bullet_mem setting.options c.sight c.shift
    rw [written_of_bullets hk ho, List.cons_append, List.cons_append, List.nil_append]
    by_cases hn : (visualLevel c.sight.token.level + c.shift) % 4 = 3
    · rw [bulletsAt_eq_tilde hn, List.mem_singleton] at hbullet
      rw [hbullet, isListItem_tilde, listMarker?_tilde]
      simp [Call.isTilde, ho, hn]
    · have hbullet := bulletsAt_subset hn hbullet
      rw [isListItem_bullet hbullet, listMarker?_bullet hbullet]
      simp [Call.isTilde, ho, hn]

theorem hasFewItems_of_length_lt {cs : List Call} (h : cs.length < 10 ^ 9) : HasFewItems cs := by
  intro opening rest hs _
  have hlength := hs.length_le
  rw [List.length_cons] at hlength
  exact lt_of_le_of_lt (length_directItems_le 0 rest) (by omega)

/-- The fourth of four nested lists has a tilde, an ordinal at any depth is an ordinal. -/
theorem isListItem_written_deep :
    HasFewItems (callsAll (.ofOptions {}) (tokenize "- a\n  - b\n    - c\n      - d\n        1. e")) ∧
      ((callsAll (.ofOptions {}) (tokenize "- a\n  - b\n    - c\n      - d\n        1. e")).filter
        fun c => c.kind == .opening .listItem).map (·.isTilde) = [false, false, false, true, false] ∧
      ∀ c ∈ callsAll (.ofOptions {}) (tokenize "- a\n  - b\n    - c\n      - d\n        1. e"),
        c.kind = .opening .listItem →
          Reflink.isListItem (c.written (.ofOptions {}) ++ ['x']) = !c.isTilde ∧
            (listMarker? false (c.written (.ofOptions {}) ++ ['x'])).map (·.2) =
              if c.isTilde then none else some ((c.written (.ofOptions {})).length - 1) := by
  have few : HasFewItems
      (callsAll (.ofOptions {}) (tokenize "- a\n  - b\n    - c\n      - d\n        1. e")) :=
    hasFewItems_of_length_lt (by decide +kernel)
  exact ⟨few, by decide +kernel, fun c hc hk => isListItem_written few hc hk ['x']⟩

/-- The marker of the innermost item is no marker of an item. -/
theorem not_forall_isListItem_written :
    ¬∀ source : String, HasFewItems (callsAll (.ofOptions {}) (tokenize source)) →
      ∀ c ∈ callsAll (.ofOptions {}) (tokenize source), c.kind = .opening .listItem →
        Reflink.isListItem (c.written (.ofOptions {})) = true := by
  intro h
  have hall := h "- a\n  - b\n    - c\n      - d" (hasFewItems_of_length_lt (by decide +kernel))
  have hread : (callsAll (.ofOptions {}) (tokenize "- a\n  - b\n    - c\n      - d")).all (fun c =>
      c.kind != .opening .listItem || Reflink.isListItem (c.written (.ofOptions {}))) = true := by
    rw [List.all_eq_true]
    intro c hc
    by_cases hk : c.kind = .opening .listItem
    · rw [hall c hc hk, Bool.or_true]
    · rw [bne_iff_ne.2 hk, Bool.true_or]
  exact absurd hread (by decide +kernel)

end Marking

end Render

end TidyMark
