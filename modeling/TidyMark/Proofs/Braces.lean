import Mathlib.Data.List.Infix
import Mathlib.Tactic.SplitIfs
import TidyMark.Render.Address

/-!
# Braces in addresses

A group of an address is a pair of braces with something between them. Taking braces off an address
takes those of its first group off and leaves the others, so the result has a group again if and
only if the address has one whose text, with all that follows it, still has one
(`hasGroup_unwrapBraces_iff`). A fragment ends at a closing brace, so it neither has a group nor
closes one (`hasGroup_append_iff`), and an address stays as it is when it gets a fragment and loses
its braces only if there is neither (`unwrapBraces_append_eq_iff`).
-/

namespace TidyMark.Render

open Text

/-- Whether a text begins with braces around `inner`, behind which `back` stands. -/
structure BeginsGroup (t inner back : Text) : Prop where
  eq : t = '\x7b' :: (inner ++ '\x7d' :: back)
  ne_nil : inner ≠ []
  closed : '\x7d' ∉ inner

/-- Whether there are braces around something in a text. -/
def HasGroup (t : Text) : Prop :=
  ∃ rest inner back, rest <:+ t ∧ BeginsGroup rest inner back

/-- Whether a group is left in a text when one has lost its braces. -/
def LeavesGroup (t : Text) : Prop :=
  ∃ rest inner back, rest <:+ t ∧ BeginsGroup rest inner back ∧ HasGroup (inner ++ back)

section Groups

variable {c : Char} {s t u inner inner' back back' : Text}

/-- What stands before the first closing brace, and what behind it, is told by the text. -/
theorem closing_inj (hinner : '\x7d' ∉ inner) (hinner' : '\x7d' ∉ inner')
    (h : inner ++ '\x7d' :: back = inner' ++ '\x7d' :: back') : inner = inner' ∧ back = back' := by
  have heq : inner = inner' := by
    rw [← takeWhile_ne_append hinner back, h, takeWhile_ne_append hinner']
  subst heq
  exact ⟨rfl, (List.cons.inj (List.append_cancel_left h)).2⟩

theorem BeginsGroup.unique (h : BeginsGroup t inner back) (h' : BeginsGroup t inner' back') :
    inner = inner' ∧ back = back' :=
  closing_inj h.closed h'.closed (List.cons.inj (h.eq.symm.trans h'.eq)).2

theorem BeginsGroup.append (h : BeginsGroup t inner back) (u : Text) :
    BeginsGroup (t ++ u) inner (back ++ u) :=
  ⟨by simp [h.eq], h.ne_nil, h.closed⟩

theorem hasGroup_cons_iff :
    HasGroup (c :: t) ↔ (∃ inner back, BeginsGroup (c :: t) inner back) ∨ HasGroup t := by
  simp only [HasGroup, List.suffix_cons_iff, or_and_right, exists_or, exists_and_left,
    exists_eq_left]

theorem leavesGroup_cons_iff : LeavesGroup (c :: t) ↔
    (∃ inner back, BeginsGroup (c :: t) inner back ∧ HasGroup (inner ++ back)) ∨ LeavesGroup t := by
  simp only [LeavesGroup, List.suffix_cons_iff, or_and_right, exists_or, exists_and_left,
    exists_eq_left]

theorem not_beginsGroup_nil : ¬BeginsGroup [] inner back :=
  fun h => nomatch h.eq

theorem not_hasGroup_nil : ¬HasGroup [] := by
  rintro ⟨rest, inner, back, hrest, h⟩
  exact not_beginsGroup_nil (List.suffix_nil.1 hrest ▸ h)

theorem HasGroup.append_left (h : HasGroup t) (s : Text) : HasGroup (s ++ t) := by
  obtain ⟨rest, inner, back, hrest, hgroup⟩ := h
  exact ⟨rest, inner, back, hrest.trans (List.suffix_append s t), hgroup⟩

theorem LeavesGroup.hasGroup (h : LeavesGroup t) : HasGroup t := by
  obtain ⟨rest, inner, back, hrest, hgroup, -⟩ := h
  exact ⟨rest, inner, back, hrest, hgroup⟩

theorem closing_mem_of_hasGroup (h : HasGroup t) : '\x7d' ∈ t := by
  obtain ⟨rest, inner, back, hrest, hgroup⟩ := h
  exact hrest.mem (hgroup.eq ▸ by simp)

/-- Where no group ends behind the front of a text, its groups are those of the front. -/
theorem hasGroup_append_iff (hu : '\x7d' ∉ u) : HasGroup (t ++ u) ↔ HasGroup t := by
  induction t with
  | nil =>
    have hnot : ¬HasGroup u := fun h => hu (closing_mem_of_hasGroup h)
    simp [hnot, not_hasGroup_nil]
  | cons c t ih =>
    rw [List.cons_append, hasGroup_cons_iff, hasGroup_cons_iff, ih]
    refine or_congr_left ⟨?_, fun ⟨inner, back, h⟩ => ⟨inner, back ++ u, h.append u⟩⟩
    rintro ⟨inner, back, h⟩
    obtain ⟨rfl, hrest⟩ := List.cons.inj h.eq
    rcases List.append_eq_append_iff.1 hrest with ⟨front, -, rfl⟩ | ⟨tail, rfl, htail⟩
    · exact absurd (by simp) hu
    · cases tail with
      | nil => exact absurd (by simp [← htail.trans (List.nil_append u)]) hu
      | cons d tail =>
        obtain ⟨rfl, -⟩ := List.cons.inj htail
        exact ⟨inner, tail, rfl, h.ne_nil, h.closed⟩

end Groups

section Unwrapping

variable {c : Char} {t u inner back : Text}

theorem unwrapBraces_of_beginsGroup (h : BeginsGroup t inner back) :
    unwrapBraces t = inner ++ back := by
  obtain ⟨rfl, hne, hclosed⟩ := h
  obtain ⟨d, inner, rfl⟩ := List.exists_cons_of_ne_nil hne
  rw [unwrapBraces, if_pos (by decide), takeWhile_ne_append hclosed, dropWhile_ne_append hclosed]

theorem unwrapBraces_cons (h : ¬∃ inner back, BeginsGroup (c :: t) inner back) :
    unwrapBraces (c :: t) = c :: unwrapBraces t := by
  rw [unwrapBraces]
  split_ifs with hc
  · split
    · next d inner e tail htake hdrop =>
      obtain ⟨heq, hclosed⟩ := eq_of_dropWhile_ne hdrop
      rw [htake] at heq hclosed
      refine absurd ⟨d :: inner, tail, ?_, List.cons_ne_nil d inner, hclosed⟩ h
      rw [beq_iff_eq.1 hc, heq]
    · rfl
  · rfl

theorem unwrapBraces_of_not_hasGroup (h : ¬HasGroup t) : unwrapBraces t = t := by
  induction t with
  | nil => rfl
  | cons c t ih =>
    rw [hasGroup_cons_iff, not_or] at h
    rw [unwrapBraces_cons h.1, ih h.2]

theorem count_unwrapBraces (h : HasGroup t) :
    (unwrapBraces t).count '\x7d' + 1 = t.count '\x7d' := by
  induction t with
  | nil => exact absurd h not_hasGroup_nil
  | cons c t ih =>
    by_cases hbegins : ∃ inner back, BeginsGroup (c :: t) inner back
    · obtain ⟨inner, back, hgroup⟩ := hbegins
      rw [unwrapBraces_of_beginsGroup hgroup, hgroup.eq]
      simp [Nat.add_assoc]
    · rw [unwrapBraces_cons hbegins, List.count_cons, List.count_cons,
        ← ih ((hasGroup_cons_iff.1 h).resolve_left hbegins)]
      omega

theorem unwrapBraces_eq_nil_iff : unwrapBraces t = [] ↔ t = [] := by
  cases t with
  | nil => exact iff_of_true rfl rfl
  | cons c t =>
    by_cases hbegins : ∃ inner back, BeginsGroup (c :: t) inner back
    · obtain ⟨inner, back, hgroup⟩ := hbegins
      simp [unwrapBraces_of_beginsGroup hgroup, hgroup.ne_nil]
    · simp [unwrapBraces_cons hbegins]

/-- A group that opens inside the first one has the same end, so it leaves no more than that one
leaves. -/
theorem hasGroup_of_leavesGroup (h : LeavesGroup (inner ++ '\x7d' :: back))
    (hclosed : '\x7d' ∉ inner) : HasGroup (inner ++ back) := by
  induction inner with
  | nil =>
    rcases leavesGroup_cons_iff.1 h with ⟨inner, back, hgroup, -⟩ | h
    · exact absurd (List.cons.inj hgroup.eq).1 (by decide)
    · exact h.hasGroup
  | cons c inner ih =>
    rw [List.mem_cons, not_or] at hclosed
    rcases leavesGroup_cons_iff.1 h with ⟨inner', back', hgroup, hleft⟩ | h
    · obtain ⟨rfl, rfl⟩ := closing_inj hclosed.2 hgroup.closed (List.cons.inj hgroup.eq).2
      exact hleft.append_left [c]
    · exact (ih h hclosed.2).append_left [c]

/-- A brace that begins no group begins none either when the text behind it loses braces. -/
theorem not_beginsGroup_unwrapBraces (h : ¬∃ inner back, BeginsGroup (c :: t) inner back) :
    ¬∃ inner back, BeginsGroup (c :: unwrapBraces t) inner back := by
  rintro ⟨inner, back, hgroup⟩
  obtain ⟨rfl, heq⟩ := List.cons.inj hgroup.eq
  by_cases hmem : '\x7d' ∈ t
  · obtain ⟨front, rest, rfl, hfront⟩ := List.eq_append_cons_of_mem hmem
    cases front with
    | nil =>
      have hcons : unwrapBraces ('\x7d' :: rest) = '\x7d' :: unwrapBraces rest :=
        unwrapBraces_cons fun ⟨_, _, hbrace⟩ => absurd (List.cons.inj hbrace.eq).1 (by decide)
      rw [List.nil_append, hcons] at heq
      obtain ⟨d, inner, rfl⟩ := List.exists_cons_of_ne_nil hgroup.ne_nil
      exact hgroup.closed ((List.cons.inj heq).1 ▸ List.mem_cons_self)
    | cons d front => exact h ⟨d :: front, rest, rfl, List.cons_ne_nil d front, hfront⟩
  · rw [unwrapBraces_of_not_hasGroup fun hgroup => hmem (closing_mem_of_hasGroup hgroup)] at heq
    exact hmem (heq ▸ by simp)

/-- Only the first group loses its braces, so a group is left if the text has another one. -/
theorem hasGroup_unwrapBraces_iff : HasGroup (unwrapBraces t) ↔ LeavesGroup t := by
  induction t with
  | nil =>
    exact iff_of_false not_hasGroup_nil fun h => not_hasGroup_nil h.hasGroup
  | cons c t ih =>
    rw [leavesGroup_cons_iff]
    by_cases hbegins : ∃ inner back, BeginsGroup (c :: t) inner back
    · obtain ⟨inner, back, hgroup⟩ := hbegins
      rw [unwrapBraces_of_beginsGroup hgroup]
      refine ⟨fun h => .inl ⟨inner, back, hgroup, h⟩, ?_⟩
      rintro (⟨inner', back', hgroup', h⟩ | h)
      · obtain ⟨rfl, rfl⟩ := hgroup.unique hgroup'
        exact h
      · obtain ⟨rfl, rfl⟩ := List.cons.inj hgroup.eq
        exact hasGroup_of_leavesGroup h hgroup.closed
    · rw [unwrapBraces_cons hbegins, hasGroup_cons_iff, ih,
        or_iff_right (not_beginsGroup_unwrapBraces hbegins), or_iff_right]
      exact fun ⟨inner, back, hgroup, _⟩ => hbegins ⟨inner, back, hgroup⟩

theorem unwrapBraces_append_eq_iff (hu : '\x7d' ∉ u) :
    unwrapBraces (t ++ u) = t ↔ ¬HasGroup t ∧ u = [] := by
  constructor
  · intro h
    have hnot : ¬HasGroup t := fun hgroup => by
      have hcount := count_unwrapBraces ((hasGroup_append_iff hu).2 hgroup)
      rw [h, List.count_append, List.count_eq_zero.2 hu] at hcount
      omega
    rw [unwrapBraces_of_not_hasGroup (mt (hasGroup_append_iff hu).1 hnot)] at h
    exact ⟨hnot, List.append_right_eq_self.1 h⟩
  · rintro ⟨hnot, rfl⟩
    rw [List.append_nil, unwrapBraces_of_not_hasGroup hnot]

end Unwrapping

end TidyMark.Render
