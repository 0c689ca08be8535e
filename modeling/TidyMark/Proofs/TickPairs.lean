import TidyMark.Proofs.Backtick

/-!
# Code spans as pairs of runs

The scan for code spans is one for pairs: the runs of backticks of a line (`tickSpans`) are taken
from left to right, each goes with the next one of its width, and what stands between them is passed
over (`pairRuns`). A run that no later one answers is passed over alone. The scan looks for the end
of a span where the list of runs is searched for a width (`dropWhile_tickSpansFrom`), so both find
the same (`codeSpans_eq_pairRuns`).
-/

namespace TidyMark.Reflink

/-- The number of characters that a span takes. -/
def Span.width (s : Span) : Nat :=
  s.stop - s.start

/-- A run of backticks in a text, with no backtick beside it. -/
structure IsTickRun (t : Text) (r : Span) : Prop where
  nonempty : r.start < r.stop
  ticks : ∀ i, r.start ≤ i → i < r.stop → t[i]? = some '`'
  left : ∀ i, i + 1 = r.start → t[i]? ≠ some '`'
  right : t[r.stop]? ≠ some '`'

/-- The run of `run` backticks that ends at `place`, if there are any. -/
def runBefore (run place : Nat) : List Span :=
  if run = 0 then [] else [⟨place - run, place⟩]

/-- The runs of backticks of a text that begins at `place`, when `run` backticks stand directly
before it. -/
def tickSpansFrom (run place : Nat) : Text → List Span
  | [] => runBefore run place
  | c :: t =>
    if c = '`' then tickSpansFrom (run + 1) (place + 1) t
    else runBefore run place ++ tickSpansFrom 0 (place + 1) t

/-- The runs of backticks of a line, from left to right. -/
def tickSpans (line : Text) : List Span :=
  tickSpansFrom 0 0 line

/-- Pairs each run with the next one of its width, which takes up the runs between the two. A run
that has no such partner is left alone. -/
def pairRuns : List Span → List Span
  | [] => []
  | r :: runs =>
    match _h : runs.dropWhile (·.width != r.width) with
    | partner :: rest => ⟨r.start, partner.stop⟩ :: pairRuns rest
    | [] => pairRuns runs
termination_by runs => runs.length
decreasing_by
  · have hlen := (List.dropWhile_suffix (l := runs) (·.width != r.width)).length_le
    rw [_h] at hlen
    simp only [List.length_cons] at hlen ⊢
    omega
  · simp

section Runs

variable {t : Text} {r : Span} {run place : Nat}

/-- Where a run has ended, the runs that begin with it or later are that one and those behind the
next character. -/
theorem isTickRun_ending_iff (hrun : run ≤ place)
    (hticks : ∀ i, place - run ≤ i → i < place → t[i]? = some '`')
    (hleft : ∀ i, i + 1 = place - run → t[i]? ≠ some '`') (hend : t[place]? ≠ some '`') :
    IsTickRun t r ∧ place - run ≤ r.start ↔
      r ∈ runBefore run place ∨ IsTickRun t r ∧ place + 1 ≤ r.start := by
  have hmem : r ∈ runBefore run place ↔ run ≠ 0 ∧ r = ⟨place - run, place⟩ := by
    unfold runBefore
    split_ifs with h <;> simp [h]
  rw [hmem]
  constructor
  · rintro ⟨h, hstart⟩
    have hne : r.start ≠ place := fun he => hend (he ▸ h.ticks _ (Nat.le_refl _) h.nonempty)
    rcases Nat.lt_or_gt_of_ne hne with hlt | hgt
    · -- one that begins later in the same run has a backtick beside it
      have hsame : r.start = place - run := by
        by_contra hother
        exact h.left (r.start - 1) (by omega) (hticks _ (by omega) (by omega))
      have hstop : r.stop = place := by
        rcases Nat.lt_trichotomy r.stop place with hbefore | heq | hbehind
        · have := h.nonempty
          exact absurd (hticks _ (by omega) hbefore) h.right
        · exact heq
        · exact absurd (h.ticks _ (by omega) hbehind) hend
      refine .inl ⟨by omega, ?_⟩
      rw [← hsame, ← hstop]
    · exact .inr ⟨h, hgt⟩
  · rintro (⟨hne, rfl⟩ | ⟨h, hstart⟩)
    · exact ⟨⟨by simp only; omega, hticks, hleft, hend⟩, Nat.le_refl _⟩
    · exact ⟨h, by omega⟩

theorem mem_tickSpansFrom_iff {whole : Text} : ∀ {t : Text} {run place : Nat},
    whole.drop place = t → run ≤ place → (∀ i, place - run ≤ i → i < place → whole[i]? = some '`') →
    (∀ i, i + 1 = place - run → whole[i]? ≠ some '`') →
    (r ∈ tickSpansFrom run place t ↔ IsTickRun whole r ∧ place - run ≤ r.start)
  | [], run, place, hdrop, hrun, hticks, hleft => by
    have hlen : whole.length ≤ place := List.drop_eq_nil_iff.1 hdrop
    have hend : whole[place]? ≠ some '`' := by simp [List.getElem?_eq_none hlen]
    rw [isTickRun_ending_iff hrun hticks hleft hend, tickSpansFrom, or_iff_left]
    rintro ⟨h, hstart⟩
    have := h.ticks _ (Nat.le_refl _) h.nonempty
    rw [List.getElem?_eq_none (by omega)] at this
    cases this
  | c :: t, run, place, hdrop, hrun, hticks, hleft => by
    have hc : whole[place]? = some c := by
      rw [← Nat.add_zero place, ← List.getElem?_drop, hdrop, List.getElem?_cons_zero]
    have hrest : whole.drop (place + 1) = t := by
      rw [← List.drop_drop, hdrop, List.drop_one, List.tail_cons]
    rw [tickSpansFrom]
    split_ifs with htick
    · rw [mem_tickSpansFrom_iff hrest (by omega), Nat.add_sub_add_right]
      · intro i hfrom hto
        rcases Nat.lt_succ_iff_lt_or_eq.1 hto with hlt | rfl
        · exact hticks i (by omega) hlt
        · rw [hc, htick]
      · rwa [Nat.add_sub_add_right]
    · have hend : whole[place]? ≠ some '`' := by simpa [hc] using htick
      rw [List.mem_append, isTickRun_ending_iff hrun hticks hleft hend,
        mem_tickSpansFrom_iff hrest (Nat.zero_le _) (fun i hfrom hto => by omega), Nat.sub_zero]
      intro i hi
      obtain rfl : i = place := by omega
      exact hend

theorem mem_tickSpans_iff {whole : Text} : r ∈ tickSpans whole ↔ IsTickRun whole r := by
  rw [tickSpans, mem_tickSpansFrom_iff List.drop_zero (Nat.le_refl _)
    (fun i _ h => absurd h (Nat.not_lt_zero i)) (fun i h => by omega), and_iff_left (Nat.zero_le _)]

theorem eq_of_mem_runBefore (h : r ∈ runBefore run place) : r = ⟨place - run, place⟩ := by
  rw [runBefore] at h
  split_ifs at h
  · cases h
  · exact List.mem_singleton.1 h

theorem start_of_mem_tickSpansFrom : ∀ {t : Text} {run place : Nat}, r ∈ tickSpansFrom run place t →
    place - run ≤ r.start
  | [], run, place, h => by rw [eq_of_mem_runBefore h]
  | c :: t, run, place, h => by
    rw [tickSpansFrom] at h
    split_ifs at h
    · have := start_of_mem_tickSpansFrom h
      omega
    · rcases List.mem_append.1 h with h | h
      · rw [eq_of_mem_runBefore h]
      · have := start_of_mem_tickSpansFrom h
        omega

/-- Runs are apart, since there is a character between them. -/
theorem pairwise_tickSpansFrom : ∀ (t : Text) (run place : Nat),
    (tickSpansFrom run place t).Pairwise fun r r' => r.stop < r'.start
  | [], run, place => by
    rw [tickSpansFrom, runBefore]
    split_ifs <;> simp
  | c :: t, run, place => by
    rw [tickSpansFrom]
    split_ifs
    · exact pairwise_tickSpansFrom t _ _
    · -- the character between a run and the next one is this one
      refine List.pairwise_append.2 ⟨pairwise_tickSpansFrom [] run place,
        pairwise_tickSpansFrom t _ _, fun r hr r' hr' => ?_⟩
      rw [eq_of_mem_runBefore hr]
      exact start_of_mem_tickSpansFrom hr'

end Runs

section Pairs

variable {r s : Span} {runs : List Span}

theorem pairRuns_of_dropWhile {partner : Span} {rest : List Span}
    (h : runs.dropWhile (·.width != r.width) = partner :: rest) :
    pairRuns (r :: runs) = ⟨r.start, partner.stop⟩ :: pairRuns rest := by
  rw [pairRuns]
  split
  · next hd =>
    rw [h] at hd
    cases hd
    rfl
  · next hd => simp [h] at hd

theorem pairRuns_of_alone (h : runs.dropWhile (·.width != r.width) = []) :
    pairRuns (r :: runs) = pairRuns runs := by
  rw [pairRuns]
  split
  · next hd => simp [h] at hd
  · rfl

/-- To show something of the pairs of all lists of runs, it is enough to take the runs as they are
paired. -/
theorem pair_induction {motive : List Span → Prop} (nil : motive [])
    (alone : ∀ r runs, runs.dropWhile (·.width != r.width) = [] → motive runs → motive (r :: runs))
    (pair : ∀ r between partner rest, partner.width = r.width →
      (between ++ partner :: rest).dropWhile (·.width != r.width) = partner :: rest →
      motive rest → motive (r :: (between ++ partner :: rest))) (runs : List Span) :
    motive runs := by
  induction hn : runs.length using Nat.strongRecOn generalizing runs with
  | _ n ih =>
    subst hn
    rcases runs with _ | ⟨r, runs⟩
    · exact nil
    rcases hd : runs.dropWhile (·.width != r.width) with _ | ⟨partner, rest⟩
    · exact alone r runs hd (ih runs.length (by simp) runs rfl)
    · have hsplit : runs.takeWhile (·.width != r.width) ++ partner :: rest = runs := by
        rw [← hd, List.takeWhile_append_dropWhile]
      have hwidth : partner.width = r.width := by
        have hhead := List.head?_dropWhile_not (·.width != r.width) runs
        rw [hd] at hhead
        simpa using hhead
      have hlength := congrArg List.length hsplit
      rw [List.length_append, List.length_cons] at hlength
      have hrest := ih rest.length (by rw [List.length_cons]; omega) rest rfl
      rw [← hsplit] at hd ⊢
      exact pair r _ partner rest hwidth hd hrest

/-- A pair is a run and a later one of the same width. -/
theorem exists_of_mem_pairRuns (runs : List Span) : s ∈ pairRuns runs →
    ∃ o c, [o, c].Sublist runs ∧ o.width = c.width ∧ s = ⟨o.start, c.stop⟩ := by
  induction runs using pair_induction with
  | nil => simp [pairRuns]
  | alone r runs hd ih =>
    rw [pairRuns_of_alone hd]
    intro h
    obtain ⟨o, c, hsub, hpair⟩ := ih h
    exact ⟨o, c, hsub.cons r, hpair⟩
  | pair r between partner rest hwidth hd ih =>
    rw [pairRuns_of_dropWhile hd]
    intro h
    rcases List.mem_cons.1 h with rfl | h
    · refine ⟨r, partner, .cons_cons r ?_, hwidth.symm, rfl⟩
      exact List.singleton_sublist.2 (by simp)
    · obtain ⟨o, c, hsub, hpair⟩ := ih h
      refine ⟨o, c, .cons r ?_, hpair⟩
      exact (hsub.cons partner).trans (List.sublist_append_right _ _)

/-- Pairs of runs that are apart are apart. -/
theorem pairwise_pairRuns (runs : List Span) (h : runs.Pairwise fun r r' => r.stop < r'.start) :
    (pairRuns runs).Pairwise fun s s' => s.stop < s'.start := by
  induction runs using pair_induction with
  | nil => simp [pairRuns]
  | alone r runs hd ih =>
    rw [pairRuns_of_alone hd]
    exact ih (List.pairwise_cons.1 h).2
  | pair r between partner rest _ hd ih =>
    rw [pairRuns_of_dropWhile hd]
    have hrest := List.pairwise_cons.1 (List.pairwise_append.1 (List.pairwise_cons.1 h).2).2.1
    refine List.pairwise_cons.2 ⟨fun s hs => ?_, ih hrest.2⟩
    obtain ⟨o, c, hsub, -, rfl⟩ := exists_of_mem_pairRuns rest hs
    exact hrest.1 o (hsub.subset List.mem_cons_self)

end Pairs

section Spans

theorem tickSpansFrom_cons {c : Char} (hc : c ≠ '`') (place : Nat) (t : Text) :
    tickSpansFrom 0 place (c :: t) = tickSpansFrom 0 (place + 1) t := by
  rw [tickSpansFrom, if_neg hc, runBefore, if_pos rfl, List.nil_append]

/-- The next run of a width among the runs is the one that the scan finds. -/
theorem dropWhile_tickSpansFrom {width : Nat} (hwidth : 0 < width) :
    ∀ {t : Text} {run place : Nat}, run ≤ place →
      (tickSpansFrom run place t).dropWhile (·.width != width) =
        match closingRun? width run place t with
        | some (stop, rest) => ⟨stop - width, stop⟩ :: tickSpansFrom 0 stop rest
        | none => []
  | [], run, place, hrun => by
    have hback : place - (place - run) = run := by omega
    rw [closingRun?, tickSpansFrom, runBefore]
    by_cases hzero : run = 0
    · simp [hzero, hwidth.ne]
    · by_cases heq : run = width
      · subst heq
        simp [hzero, Span.width, hback, tickSpansFrom, runBefore]
      · simp [hzero, heq, Span.width, hback]
  | c :: t, run, place, hrun => by
    have hback : place - (place - run) = run := by omega
    rw [closingRun?, tickSpansFrom]
    by_cases hc : c = '`'
    · simp only [hc, beq_self_eq_true, if_true]
      exact dropWhile_tickSpansFrom hwidth (by omega)
    have ih := @dropWhile_tickSpansFrom width hwidth t 0 (place + 1) (Nat.zero_le _)
    rw [if_neg hc, if_neg (by simpa using hc), runBefore]
    by_cases hzero : run = 0
    · subst hzero
      rw [if_pos rfl, if_neg (by simpa using hwidth.ne), List.nil_append, ih]
    · rw [if_neg hzero, List.singleton_append]
      by_cases heq : run = width
      · subst heq
        rw [if_pos (by simp), List.dropWhile_cons_of_neg (by simp [Span.width, hback])]
        simp only [tickSpansFrom_cons hc]
      · rw [if_neg (by simpa using heq), List.dropWhile_cons_of_pos (by simpa [Span.width, hback]),
          ih]

theorem tickSpansFrom_replicate : ∀ (n run place : Nat) (t : Text),
    tickSpansFrom run place (List.replicate n '`' ++ t) = tickSpansFrom (run + n) (place + n) t
  | 0, run, place, t => rfl
  | n + 1, run, place, t => by
    rw [List.replicate_succ, List.cons_append, tickSpansFrom, if_pos rfl, tickSpansFrom_replicate,
      Nat.add_right_comm, Nat.add_right_comm place, Nat.add_assoc run, Nat.add_assoc place]

theorem tickSpansFrom_run {n : Nat} {t : Text} (ht : NoTick t) (place : Nat) :
    tickSpansFrom 0 place (List.replicate (n + 1) '`' ++ t) =
      ⟨place, place + (n + 1)⟩ :: tickSpansFrom 0 (place + (n + 1)) t := by
  rw [tickSpansFrom_replicate, Nat.zero_add]
  rcases t with _ | ⟨c, t⟩
  · simp [tickSpansFrom, runBefore]
  · have hc : c ≠ '`' := by simpa [NoTick] using ht
    rw [tickSpansFrom_cons hc, tickSpansFrom, if_neg hc, runBefore, if_neg (by omega),
      Nat.add_sub_cancel_right, List.singleton_append]

/-- What a run of `n + 1` backticks is paired with behind it, in the words of the scan. -/
theorem dropWhile_behind_run (place n behind : Nat) (t : Text) :
    (tickSpansFrom 0 behind t).dropWhile (·.width != Span.width ⟨place, place + (n + 1)⟩) =
      match closingRun? (n + 1) 0 behind t with
      | some (stop, rest) => ⟨stop - (n + 1), stop⟩ :: tickSpansFrom 0 stop rest
      | none => [] := by
  have hwidth : Span.width ⟨place, place + (n + 1)⟩ = n + 1 := Nat.add_sub_cancel_left place _
  rw [hwidth, dropWhile_tickSpansFrom (Nat.succ_pos n) (Nat.zero_le behind)]

theorem codeSpansFrom_eq_pairRuns (t : Text) :
    ∀ place, codeSpansFrom place t = pairRuns (tickSpansFrom 0 place t) := by
  induction t using scan_induction with
  | nil => exact fun place => by simp [tickSpansFrom, runBefore, pairRuns]
  | char c t hc ih =>
    intro place
    rw [codeSpansFrom_cons hc, tickSpansFrom_cons hc, ih]
  | idle n t ht hn ih =>
    intro place
    have hnone : closingRun? (n + 1) 0 (place + (n + 1)) t = none :=
      closingRun?_eq_none_iff.2 fun hm => hn (succ_mem_widths.2 hm)
    have hnext := dropWhile_behind_run place n (place + (n + 1)) t
    rw [hnone] at hnext
    rw [codeSpansFrom_of_not_mem ht hn, tickSpansFrom_run ht, pairRuns_of_alone hnext, ih]
  | span n w t hw hwt ht ih =>
    intro place
    have hnext := dropWhile_behind_run place n (place + (n + 1)) (w ++ t)
    rw [hw _ t ht] at hnext
    rw [codeSpansFrom_of_closes hw hwt ht, tickSpansFrom_run hwt, pairRuns_of_dropWhile hnext, ih]

/-- The code spans of a line are its runs of backticks, all that are in it and from left to right,
each paired with the next one of its width. So they are apart, from left to right, and each begins
and ends with a run of the line, of the same width. -/
theorem codeSpans_eq_pairRuns (line : Text) :
    (∀ r, r ∈ tickSpans line ↔ IsTickRun line r) ∧
      (tickSpans line).Pairwise (fun r r' => r.stop < r'.start) ∧
      codeSpans line = pairRuns (tickSpans line) ∧
      (codeSpans line).Pairwise (fun s s' => s.stop < s'.start) ∧
      ∀ s ∈ codeSpans line, ∃ o c, IsTickRun line o ∧ IsTickRun line c ∧ o.stop < c.start ∧
        o.width = c.width ∧ s = ⟨o.start, c.stop⟩ := by
  have heq : codeSpans line = pairRuns (tickSpans line) := codeSpansFrom_eq_pairRuns line 0
  have hapart := pairwise_tickSpansFrom line 0 0
  refine ⟨fun r => mem_tickSpans_iff, hapart, heq, heq ▸ pairwise_pairRuns _ hapart, ?_⟩
  intro s hs
  obtain ⟨o, c, hsub, hwidth, rfl⟩ := exists_of_mem_pairRuns _ (heq ▸ hs)
  have hclose : o.stop < c.start := by simpa using hapart.sublist hsub
  exact ⟨o, c, mem_tickSpans_iff.1 (hsub.subset (by simp)),
    mem_tickSpans_iff.1 (hsub.subset (by simp)), hclose, hwidth, rfl⟩

/-- The run of two finds no partner, and the run of three passes over the single ones. -/
example : codeSpans "`` ```a`b`c``` `d`" = [⟨3, 14⟩, ⟨15, 18⟩] := by decide +kernel

end Spans

end TidyMark.Reflink
