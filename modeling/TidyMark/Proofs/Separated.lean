import Mathlib.Data.List.Basic
import Mathlib.Data.List.TakeWhile
import Mathlib.Tactic.SplitIfs
import TidyMark.Reflink.Separate

/-!
# Texts that are separated

A text is words and the white space between them (`stretches`). Separating writes every stretch of
white space for itself: between a collapsed reference and a bracket one that has a line feed becomes
a blank line, and all others stay (`separate_append`). It looks at no character of a stretch but for
a line feed, and the blank line has one, so a separated text stays as it is
(`separate_separate`), and every stretch of a text is found again in its place in the separated text
(`exists_separate_eq`).
-/

namespace TidyMark

namespace Text

/-- The characters of a text that are no white space. -/
def visible (t : Text) : Text :=
  t.filter fun c => !isBlank c

/-- White space, perhaps none, and all that there is of it between two texts. -/
structure IsStretch (before ws after : Text) : Prop where
  blank : ∀ c ∈ ws, isBlank c = true
  before : ∀ c ∈ before.getLast?, isBlank c = false
  after : ∀ c ∈ after.head?, isBlank c = false

variable {before before' ws ws' after after' w x t : Text}

section Visible

theorem visible_append (s t : Text) : visible (s ++ t) = visible s ++ visible t :=
  List.filter_append ..

theorem visible_of_blank (h : ∀ c ∈ ws, isBlank c = true) : visible ws = [] :=
  List.filter_eq_nil_iff.2 fun c hc => by simp [h c hc]

/-- What is added without a visible character, to end with one, is nothing. -/
theorem eq_nil_of_visible_append (hv : visible (t ++ x) = visible t)
    (hlast : ∀ c ∈ (t ++ x).getLast?, isBlank c = false) : x = [] := by
  rw [visible_append, List.append_right_eq_self] at hv
  rcases x.eq_nil_or_concat with rfl | ⟨x, c, rfl⟩
  · rfl
  · rw [List.concat_eq_append] at hv hlast
    have hc := hlast c (by simp)
    have hmem : c ∈ visible (x ++ [c]) := List.mem_filter.2 ⟨by simp, by simp [hc]⟩
    rw [hv] at hmem
    cases hmem

end Visible

section Stretches

theorem IsStretch.of_word (hw : ∀ c ∈ w, isBlank c = false) (hws : ∀ c ∈ ws, isBlank c = true)
    (hafter : ∀ c ∈ after.head?, isBlank c = false) : IsStretch w ws after :=
  ⟨hws, fun c hc => hw c (List.mem_of_getLast? hc), hafter⟩

/-- Induction over the words of a text and the white space between them. -/
@[elab_as_elim]
theorem stretches {P : Text → Prop} (word : ∀ w : Text, (∀ c ∈ w, isBlank c = false) → P w)
    (append : ∀ w ws rest : Text, (∀ c ∈ w, isBlank c = false) → IsStretch w ws rest → ws ≠ [] →
      P rest → P (w ++ (ws ++ rest))) (t : Text) : P t := by
  have ht : t.takeWhile (!isBlank ·) ++ t.dropWhile (!isBlank ·) = t :=
    List.takeWhile_append_dropWhile
  have hw : ∀ c ∈ t.takeWhile (!isBlank ·), isBlank c = false := fun c hc => by
    simpa using List.mem_takeWhile_imp hc
  rcases hd : t.dropWhile (!isBlank ·) with _ | ⟨c, u⟩
  · rw [hd, List.append_nil] at ht
    rw [← ht]
    exact word _ hw
  · have hc : isBlank c = true := by
      have := List.head?_dropWhile_not (!isBlank ·) t
      simpa [hd] using this
    have hu : c :: u.takeWhile isBlank ++ u.dropWhile isBlank = c :: u :=
      congrArg (c :: ·) List.takeWhile_append_dropWhile
    have hrest : ∀ d ∈ (u.dropWhile isBlank).head?, isBlank d = false := fun d hd => by
      have := List.head?_dropWhile_not isBlank u
      rw [hd] at this
      exact this
    have hws : ∀ d ∈ c :: u.takeWhile isBlank, isBlank d = true :=
      List.forall_mem_cons.2 ⟨hc, fun d hd => List.mem_takeWhile_imp hd⟩
    have hshorter : (u.dropWhile isBlank).length < t.length := by
      rw [← ht, hd, ← hu]
      simp only [List.length_append, List.length_cons]
      omega
    rw [hd, ← hu] at ht
    rw [← ht]
    exact append _ _ _ hw (.of_word hw hws hrest) (List.cons_ne_nil _ _)
      (stretches word append (u.dropWhile isBlank))
termination_by t.length

theorem IsStretch.takeWhile (h : IsStretch before ws after) :
    (ws ++ after).takeWhile isBlank = ws ∧ (ws ++ after).dropWhile isBlank = after := by
  rw [List.takeWhile_append_of_pos h.blank, List.dropWhile_append_of_pos h.blank]
  rcases after with _ | ⟨c, after⟩
  · simp
  · simp [h.after c rfl]

/-- Stretches of a text behind the same visible characters are the same. -/
theorem IsStretch.eq_of_visible (h : IsStretch before ws after) (h' : IsStretch before' ws' after')
    (ht : before ++ (ws ++ after) = before' ++ (ws' ++ after'))
    (hv : visible before = visible before') : before = before' ∧ ws = ws' ∧ after = after' := by
  obtain ⟨rfl, hrest⟩ : before = before' ∧ ws ++ after = ws' ++ after' := by
    rcases List.append_eq_append_iff.1 ht with ⟨x, rfl, hx⟩ | ⟨x, rfl, hx⟩
    · obtain rfl := eq_nil_of_visible_append hv.symm h'.before
      exact ⟨(List.append_nil _).symm, hx⟩
    · obtain rfl := eq_nil_of_visible_append hv h.before
      exact ⟨List.append_nil _, hx.symm⟩
  obtain ⟨htake, hdrop⟩ := h.takeWhile
  rw [hrest, h'.takeWhile.1] at htake
  rw [hrest, h'.takeWhile.2] at hdrop
  exact ⟨rfl, htake.symm, hdrop.symm⟩

end Stretches

end Text

namespace Reflink

open Text

/-- Whether a collapsed reference ends the text before and a bracket begins the text after. -/
def Parts (before after : Text) : Prop :=
  [']', '[', ']'] <:+ before ∧ after.head? = some '['

instance (before after : Text) : Decidable (Parts before after) :=
  inferInstanceAs (Decidable (_ ∧ _))

/-- What is written for the white space between two texts. -/
def gapBetween (before ws after : Text) : Text :=
  if Parts before after ∧ '\n' ∈ ws then ['\n', '\n'] else ws

variable {before ws after w t : Text} {c : Char}

section Gaps

theorem gapBetween_blank (h : ∀ c ∈ ws, isBlank c = true) :
    ∀ c ∈ gapBetween before ws after, isBlank c = true := by
  unfold gapBetween
  split_ifs
  · exact List.all_eq_true.1 (by decide)
  · exact h

theorem gapBetween_ne_nil (h : ws ≠ []) : gapBetween before ws after ≠ [] := by
  unfold gapBetween
  split_ifs
  · exact List.cons_ne_nil _ _
  · exact h

theorem newline_mem_gapBetween : '\n' ∈ gapBetween before ws after ↔ '\n' ∈ ws := by
  unfold gapBetween
  split_ifs with h
  · exact iff_of_true List.mem_cons_self h.2
  · rfl

end Gaps

section Words

theorem isBlank_opening : isBlank '[' = false := by decide

theorem isBlank_closing : isBlank ']' = false := by decide

theorem separate_cons (h : ∀ rest, c :: t = ']' :: '[' :: ']' :: rest →
    bracketOnLaterLine? rest = none) : separate (c :: t) = c :: separate t := by
  rw [separate.eq_def]
  split
  · next rest heq =>
    rw [h rest heq]
    cases heq
    rfl
  · next heq =>
    cases heq
    rfl
  · next heq => cases heq

theorem bracketOnLaterLine?_of_visible (hc : isBlank c = false) (t : Text) :
    bracketOnLaterLine? (c :: t) = none := by
  unfold bracketOnLaterLine?
  rw [List.takeWhile_cons_of_neg (by simp [hc]), List.dropWhile_cons_of_neg (by simp [hc])]
  split
  · rfl
  · rfl

theorem bracketOnLaterLine?_stretch (h : IsStretch before ws after) (rest : Text) :
    bracketOnLaterLine? (ws ++ after) = some rest ↔ after = '[' :: rest ∧ '\n' ∈ ws := by
  obtain ⟨htake, hdrop⟩ := h.takeWhile
  unfold bracketOnLaterLine?
  rw [htake, hdrop]
  split
  · simp [and_comm]
  · next hne => simpa using fun h => absurd h (hne rest)

theorem separate_blank (h : ∀ c ∈ ws, isBlank c = true) (t : Text) :
    separate (ws ++ t) = ws ++ separate t := by
  induction ws with
  | nil => rfl
  | cons c ws ih =>
    obtain ⟨hc, hws⟩ := List.forall_mem_cons.1 h
    rw [List.cons_append, List.cons_append, separate_cons, ih hws]
    intro rest heq
    obtain ⟨rfl, -⟩ := List.cons.inj heq
    exact absurd hc (by decide)

theorem separate_word (hw : ∀ c ∈ w, isBlank c = false) : separate w = w := by
  induction w with
  | nil => exact separate.eq_def []
  | cons c w ih =>
    obtain ⟨-, htail⟩ := List.forall_mem_cons.1 hw
    rw [separate_cons, ih htail]
    rintro (_ | ⟨d, rest⟩) heq
    · rfl
    · exact bracketOnLaterLine?_of_visible (hw d (by simp [heq])) rest

/-- What begins with white space begins with no bracket. -/
theorem append_ne_cons (h : ∀ c ∈ ws, isBlank c = true) (hne : ws ≠ []) (hc : isBlank c = false)
    (s t : Text) : ws ++ s ≠ c :: t := by
  obtain ⟨d, ws, rfl⟩ := List.exists_cons_of_ne_nil hne
  intro heq
  rw [← (List.cons.inj heq).1, h d List.mem_cons_self] at hc
  cases hc

theorem separate_collapsed (h : IsStretch [']', '[', ']'] ws after) (hne : ws ≠ []) :
    separate (']' :: '[' :: ']' :: (ws ++ after)) =
      ']' :: '[' :: ']' :: (gapBetween [']', '[', ']'] ws after ++ separate after) := by
  by_cases hparts : after.head? = some '[' ∧ '\n' ∈ ws
  · obtain ⟨rest, rfl⟩ := List.head?_eq_some_iff.1 hparts.1
    have hbracket := (bracketOnLaterLine?_stretch h rest).2 ⟨rfl, hparts.2⟩
    rw [gapBetween, if_pos ⟨⟨List.suffix_rfl, hparts.1⟩, hparts.2⟩,
      separate_cons (c := '[') (by simp), separate]
    split
    · next rest' hrest =>
      obtain rfl : rest = rest' := by simpa [hbracket] using hrest
      rfl
    · next hnone => simp [hbracket] at hnone
  · have hnone : bracketOnLaterLine? (ws ++ after) = none :=
      Option.eq_none_iff_forall_ne_some.2 fun rest hrest => by
        obtain ⟨rfl, hn⟩ := (bracketOnLaterLine?_stretch h rest).1 hrest
        exact hparts ⟨rfl, hn⟩
    rw [gapBetween, if_neg fun hp => hparts ⟨hp.1.2, hp.2⟩, separate_cons, separate_cons,
      separate_cons, separate_blank h.blank]
    · intro rest heq
      exact absurd (List.cons.inj heq).2 (append_ne_cons h.blank hne isBlank_opening _ _)
    · simp
    · intro rest heq
      obtain rfl : ws ++ after = rest := by simpa using heq
      exact hnone

/-- The white space behind a word is written for itself. -/
theorem separate_append (hw : ∀ c ∈ w, isBlank c = false) (h : IsStretch w ws after)
    (hne : ws ≠ []) :
    separate (w ++ (ws ++ after)) = w ++ (gapBetween w ws after ++ separate after) := by
  induction w with
  | nil =>
    rw [List.nil_append, separate_blank h.blank, gapBetween, if_neg (by simp [Parts])]
    rfl
  | cons c w ih =>
    by_cases hw' : c :: w = [']', '[', ']']
    · obtain ⟨rfl, rfl⟩ := List.cons.inj hw'
      exact separate_collapsed h hne
    · obtain ⟨-, htail⟩ := List.forall_mem_cons.1 hw
      have hgap : gapBetween (c :: w) ws after = gapBetween w ws after := by
        have hparts : Parts (c :: w) after ↔ Parts w after := by
          rw [Parts, Parts, List.suffix_cons_iff, or_iff_right (Ne.symm hw')]
        simp only [gapBetween, hparts]
      have hcons : ∀ rest, c :: (w ++ (ws ++ after)) = ']' :: '[' :: ']' :: rest →
          bracketOnLaterLine? rest = none := by
        intro rest heq
        obtain ⟨rfl, hopen⟩ := List.cons.inj heq
        rcases w with _ | ⟨d, w⟩
        · exact absurd hopen (append_ne_cons h.blank hne isBlank_opening _ _)
        obtain ⟨rfl, hclose⟩ := List.cons.inj hopen
        rcases w with _ | ⟨e, w⟩
        · exact absurd hclose (append_ne_cons h.blank hne isBlank_closing _ _)
        obtain ⟨rfl, hrest⟩ := List.cons.inj hclose
        rcases w with _ | ⟨f, w⟩
        · exact absurd rfl hw'
        · rw [← hrest]
          exact bracketOnLaterLine?_of_visible (hw f (by simp)) _
      rw [List.cons_append, separate_cons hcons, hgap, ih htail (.of_word htail h.blank h.after)]
      rfl

end Words

section Separated

theorem head?_separate (t : Text) : (separate t).head? = t.head? := by
  rw [separate.eq_def]
  split
  · split <;> rfl
  · rfl
  · rfl

theorem visible_separate (t : Text) : visible (separate t) = visible t := by
  induction t using stretches with
  | word w hw => rw [separate_word hw]
  | append w ws rest hw h hne ih =>
    rw [separate_append hw h hne]
    simp only [visible_append]
    rw [visible_of_blank (gapBetween_blank h.blank), visible_of_blank h.blank, ih]

theorem isStretch_separate (h : IsStretch before ws after) :
    IsStretch before (gapBetween before ws after) (separate after) :=
  ⟨gapBetween_blank h.blank, h.before, fun c hc => h.after c (head?_separate after ▸ hc)⟩

/-- A blank line is written for a blank line. -/
theorem gapBetween_gapBetween (before ws after : Text) :
    gapBetween before (gapBetween before ws after) (separate after) =
      gapBetween before ws after := by
  have hparts : Parts before (separate after) ↔ Parts before after := by
    rw [Parts, Parts, head?_separate]
  by_cases h : Parts before after ∧ '\n' ∈ ws
  · rw [gapBetween, if_pos ⟨hparts.2 h.1, newline_mem_gapBetween.2 h.2⟩, gapBetween, if_pos h]
  · rw [gapBetween, if_neg fun hp => h ⟨hparts.1 hp.1, newline_mem_gapBetween.1 hp.2⟩]

theorem separate_separate (t : Text) : separate (separate t) = separate t := by
  induction t using stretches with
  | word w hw => rw [separate_word hw, separate_word hw]
  | append w ws rest hw h hne ih =>
    rw [separate_append hw h hne, separate_append hw (isStretch_separate h) (gapBetween_ne_nil hne),
      ih, gapBetween_gapBetween]

/-- A word at the beginning stays, and so do the visible characters behind it. -/
theorem exists_separate_word_append (hw : ∀ c ∈ w, isBlank c = false)
    (hafter : ∀ c ∈ after.head?, isBlank c = false) : ∃ after',
      separate (w ++ after) = w ++ after' ∧ after'.head? = after.head? ∧
        visible after' = visible after := by
  induction after using stretches with
  | word u hu =>
    exact ⟨u, separate_word (List.forall_mem_append.2 ⟨hw, hu⟩), rfl, rfl⟩
  | append u ws rest hu h hne ih =>
    have hwu : ∀ c ∈ w ++ u, isBlank c = false := List.forall_mem_append.2 ⟨hw, hu⟩
    refine ⟨u ++ (gapBetween (w ++ u) ws rest ++ separate rest), ?_, ?_, ?_⟩
    · rw [← List.append_assoc, separate_append hwu (.of_word hwu h.blank h.after) hne,
        List.append_assoc]
    · rcases u with _ | ⟨d, u⟩
      · obtain ⟨d, ws, rfl⟩ := List.exists_cons_of_ne_nil hne
        have hd := hafter d rfl
        rw [h.blank d List.mem_cons_self] at hd
        cases hd
      · rfl
    · simp only [visible_append]
      rw [visible_of_blank (gapBetween_blank h.blank), visible_of_blank h.blank, visible_separate]

theorem getLast?_of_blank (hws : ∀ c ∈ ws, isBlank c = true) (hne : ws ≠ []) :
    ∃ c, (w ++ ws).getLast? = some c ∧ isBlank c = true := by
  refine ⟨ws.getLast hne, ?_, hws _ (List.getLast_mem hne)⟩
  rw [List.getLast?_append_of_ne_nil w hne, List.getLast?_eq_some_getLast hne]

/-- A collapsed reference does not reach over white space. -/
theorem parts_append (hws : ∀ c ∈ ws, isBlank c = true) (hne : ws ≠ []) :
    Parts (w ++ (ws ++ before)) after ↔ Parts before after := by
  rw [← List.append_assoc]
  refine and_congr_left' ⟨fun ⟨u, hu⟩ => ?_, fun h => h.trans (List.suffix_append _ _)⟩
  rcases List.append_eq_append_iff.1 hu with ⟨x, hx, hbrackets⟩ | ⟨x, -, rfl⟩
  · rcases x.eq_nil_or_concat with rfl | ⟨x, d, rfl⟩
    · exact hbrackets ▸ List.suffix_rfl
    · -- A character of the brackets would be the last one of the white space.
      obtain ⟨c, hlast, hc⟩ := getLast?_of_blank (w := w) hws hne
      rw [hx, List.concat_eq_append, ← List.append_assoc, List.getLast?_concat] at hlast
      obtain rfl := Option.some.inj hlast
      have hmem : d ∈ [']', '[', ']'] := by simp [hbrackets]
      have hvisible : ∀ c ∈ [']', '[', ']'], isBlank c = false := by
        simp [isBlank_opening, isBlank_closing]
      rw [hvisible d hmem] at hc
      cases hc
  · exact List.suffix_append _ _

/-- Every stretch of white space is found again in its place, as what is written for it. -/
theorem exists_separate_eq (h : IsStretch before ws after) : ∃ before' after',
    separate (before ++ (ws ++ after)) = before' ++ (gapBetween before ws after ++ after') ∧
      IsStretch before' (gapBetween before ws after) after' ∧
      visible before' = visible before ∧ visible after' = visible after := by
  induction before using stretches with
  | word w hw =>
    by_cases hne : ws = []
    · obtain ⟨after', hseparate, hhead, hvisible⟩ := exists_separate_word_append hw h.after
      subst hne
      have hgap : gapBetween w [] after = [] := if_neg fun hp => nomatch hp.2
      rw [hgap]
      exact ⟨w, after', hseparate, ⟨h.blank, h.before, hhead ▸ h.after⟩, rfl, hvisible⟩
    · exact ⟨w, separate after, separate_append hw h hne, isStretch_separate h, rfl,
        visible_separate after⟩
  | append w gap rest hw hgap hne ih =>
    have hrest : rest ≠ [] := by
      rintro rfl
      obtain ⟨c, hlast, hc⟩ := getLast?_of_blank (w := w) hgap.blank hne
      rw [List.append_nil] at h
      rw [h.before c hlast] at hc
      cases hc
    have hlast : ∀ c ∈ rest.getLast?, isBlank c = false := fun c hc => h.before c (by
      rwa [← List.append_assoc, List.getLast?_append_of_ne_nil _ hrest])
    obtain ⟨before', after', hseparate, h', hbefore, hafter⟩ := ih ⟨h.blank, hlast, h.after⟩
    have hnext : ∀ t : Text, IsStretch w gap (rest ++ t) := fun t =>
      ⟨hgap.blank, hgap.before, by rw [List.head?_append_of_ne_nil _ hrest]; exact hgap.after⟩
    have hne' : before' ≠ [] := by
      rintro rfl
      exact hrest (eq_nil_of_visible_append (t := []) hbefore.symm hlast)
    have hgap' : gapBetween (w ++ (gap ++ rest)) ws after = gapBetween rest ws after := by
      simp only [gapBetween, parts_append hgap.blank hne]
    refine ⟨w ++ (gapBetween w gap (rest ++ (ws ++ after)) ++ before'), after', ?_, ?_, ?_, hafter⟩
    · rw [List.append_assoc, List.append_assoc, separate_append hw (hnext _) hne, hseparate, hgap']
      simp only [List.append_assoc]
    · rw [hgap', ← List.append_assoc]
      refine ⟨h'.blank, ?_, h'.after⟩
      rw [List.getLast?_append_of_ne_nil _ hne']
      exact h'.before
    · simp only [visible_append]
      rw [visible_of_blank (gapBetween_blank hgap.blank), visible_of_blank hgap.blank, hbefore]

/-- Where a collapsed reference stands before a bracket on a later line, there is a blank line. -/
theorem eq_of_separate_eq {t : Text}
    (ht : separate t = before ++ ([']', '[', ']'] ++ (ws ++ '[' :: after)))
    (hws : ∀ c ∈ ws, isBlank c = true) (hn : '\n' ∈ ws) : ws = ['\n', '\n'] := by
  rw [← List.append_assoc] at ht
  have hlast : (before ++ [']', '[', ']']).getLast? = some ']' :=
    List.getLast?_append_of_ne_nil _ (List.cons_ne_nil _ _)
  have h : IsStretch (before ++ [']', '[', ']']) ws ('[' :: after) :=
    ⟨hws, fun c hc => Option.some.inj (hlast.symm.trans hc) ▸ isBlank_closing,
      fun c hc => Option.some.inj hc ▸ isBlank_opening⟩
  have hgap : gapBetween (before ++ [']', '[', ']']) ws ('[' :: after) = ['\n', '\n'] :=
    if_pos ⟨⟨List.suffix_append _ _, rfl⟩, hn⟩
  obtain ⟨before', after', hseparate, h', hvisible, -⟩ := exists_separate_eq h
  rw [← ht, separate_separate, ht, hgap] at hseparate
  rw [hgap] at h'
  exact (h.eq_of_visible h' hseparate hvisible.symm).2.1

/-- Separating a second time changes nothing. No visible character changes or moves. Between a
collapsed reference and a bracket on a later line there is one blank line, and all other white
space stays as it is in its place. -/
theorem separated_separate (t : Text) : separate (separate t) = separate t ∧
    visible (separate t) = visible t ∧
    (∀ before ws after : Text, (∀ c ∈ ws, isBlank c = true) → '\n' ∈ ws →
      separate t = before ++ ([']', '[', ']'] ++ (ws ++ '[' :: after)) → ws = ['\n', '\n']) ∧
    ∀ before ws after : Text, IsStretch before ws after → t = before ++ (ws ++ after) →
      ¬ (Parts before after ∧ '\n' ∈ ws) → ∃ before' after',
        separate t = before' ++ (ws ++ after') ∧ IsStretch before' ws after' ∧
          visible before' = visible before ∧ visible after' = visible after := by
  refine ⟨separate_separate t, visible_separate t, fun before ws after hws hn ht =>
    eq_of_separate_eq ht hws hn, ?_⟩
  rintro before ws after h rfl hparts
  have hgap : gapBetween before ws after = ws := if_neg hparts
  have hseparate := exists_separate_eq h
  rwa [hgap] at hseparate

example : separate "[a][] \r\n\u2003[b][]\u00a0[c][]\n\n\n[d] [] \n[e]" =
    "[a][]\n\n[b][]\u00a0[c][]\n\n[d] [] \n[e]".toList := by decide +kernel

end Separated

end Reflink

end TidyMark
