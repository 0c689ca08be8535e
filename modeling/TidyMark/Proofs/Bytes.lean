import Mathlib.Tactic.SplitIfs
import TidyMark.Text.Basic

/-!
# Places in a text, in bytes

A number of bytes is a place in a text where it is the length of a beginning of the text
(`IsBoundary`); only there can a text be cut (`splitAtByte?_isSome`). What stands between two
places is found between them again (`slice?_append`).
-/

namespace TidyMark.Text

def IsBoundary (t : Text) (n : Nat) : Prop :=
  ∃ before after, t = before ++ after ∧ byteLength before = n

@[simp] theorem byteLength_nil : byteLength [] = 0 := rfl

@[simp] theorem byteLength_cons (c : Char) (t : Text) :
    byteLength (c :: t) = c.utf8Size + byteLength t := rfl

theorem byteLength_reverse (t : Text) : byteLength t.reverse = byteLength t := by
  induction t with
  | nil => rfl
  | cons c t ih =>
    rw [List.reverse_cons, byteLength_append, ih, byteLength_cons, byteLength_cons, byteLength_nil,
      Nat.add_zero, Nat.add_comm]

theorem byteLength_pos {t : Text} (h : t ≠ []) : 0 < byteLength t := by
  obtain ⟨c, rest, rfl⟩ := List.exists_cons_of_ne_nil h
  have := c.utf8Size_pos
  simp only [byteLength_cons]
  omega

theorem byteLength_of_ascii {t : Text} (h : ∀ c ∈ t, c.toNat < 128) : byteLength t = t.length := by
  induction t with
  | nil => rfl
  | cons c t ih =>
    obtain ⟨hc, ht⟩ := List.forall_mem_cons.1 h
    have hsize : c.utf8Size = 1 := by
      have hle : c.val ≤ 127 := UInt32.le_iff_toNat_le.2 (Nat.lt_succ_iff.1 hc)
      exact if_pos hle
    rw [byteLength_cons, hsize, ih ht, List.length_cons, Nat.add_comm]

theorem splitAtByte?_append_add : ∀ (p : Text) (n : Nat) (t : Text),
    splitAtByte? (byteLength p + n) (p ++ t) = (splitAtByte? n t).map fun (b, a) => (p ++ b, a)
  | [], n, t => by
    rw [byteLength_nil, Nat.zero_add, List.nil_append]
    exact (congrFun Option.map_id _).symm
  | c :: p, n, t => by
    have hc := c.utf8Size_pos
    obtain ⟨m, hm⟩ : ∃ m, byteLength (c :: p) + n = m + 1 :=
      ⟨byteLength (c :: p) + n - 1, by simp only [byteLength_cons]; omega⟩
    rw [hm, List.cons_append, splitAtByte?, if_pos (by simp only [byteLength_cons] at hm; omega),
      show m + 1 - c.utf8Size = byteLength p + n by simp only [byteLength_cons] at hm; omega,
      splitAtByte?_append_add p n t, Option.map_map]
    rfl

theorem splitAtByte?_append (s t : Text) : splitAtByte? (byteLength s) (s ++ t) = some (s, t) := by
  have h := splitAtByte?_append_add s 0 t
  rw [Nat.add_zero] at h
  simp only [h, splitAtByte?, Option.map_some, List.append_nil]

theorem byteLength_of_splitAtByte? :
    ∀ {n : Nat} {t before after : Text}, splitAtByte? n t = some (before, after) →
      byteLength before = n
  | 0, t, before, after, h => by
    simp only [splitAtByte?, Option.some.injEq, Prod.mk.injEq] at h
    simp [← h.1]
  | n + 1, [], before, after, h => by simp [splitAtByte?] at h
  | n + 1, c :: rest, before, after, h => by
    simp only [splitAtByte?] at h
    split_ifs at h with hc
    obtain ⟨⟨b, a⟩, hb, hr⟩ := Option.map_eq_some_iff.1 h
    simp only [Prod.mk.injEq] at hr
    have := byteLength_of_splitAtByte? hb
    rw [← hr.1, byteLength_cons]
    omega

theorem splitAtByte?_eq_some_iff {n : Nat} {t before after : Text} :
    splitAtByte? n t = some (before, after) ↔ before ++ after = t ∧ byteLength before = n := by
  refine ⟨fun h => ⟨append_of_splitAtByte? h, byteLength_of_splitAtByte? h⟩, ?_⟩
  rintro ⟨rfl, rfl⟩
  exact splitAtByte?_append before after

theorem splitAtByte?_isSome {n : Nat} {t : Text} : (splitAtByte? n t).isSome ↔ IsBoundary t n := by
  rw [Option.isSome_iff_exists]
  constructor
  · rintro ⟨⟨before, after⟩, h⟩
    obtain ⟨h1, h2⟩ := splitAtByte?_eq_some_iff.1 h
    exact ⟨before, after, h1.symm, h2⟩
  · rintro ⟨before, after, rfl, rfl⟩
    exact ⟨_, splitAtByte?_append before after⟩

theorem slice?_append (s found rest : Text) :
    slice? (byteLength s) (byteLength (s ++ found)) (s ++ found ++ rest) = some found := by
  rw [slice?, if_pos (by rw [byteLength_append]; omega), List.append_assoc, splitAtByte?_append,
    Option.bind_some]
  simp only [byteLength_append, Nat.add_sub_cancel_left, splitAtByte?_append, Option.map_some]

end TidyMark.Text
