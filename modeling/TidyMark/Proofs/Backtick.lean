import Mathlib.Data.List.Lattice
import Mathlib.Tactic.SplitIfs
import TidyMark.Proofs.Scan
import TidyMark.Reflink.CodeSpan

/-!
# Runs of backticks

Where the code spans of a text are goes by the widths of its runs of backticks (`widths`): a run
closes nothing exactly when no later one is as wide (`closingRun?_eq_none_iff`), and what a text
begins with holds no span exactly when its runs are all different from each other and from those
that follow (`idle_of_spans`, `codeSpansFrom_of_idle`).
-/

namespace TidyMark.Reflink

section Runs

def NoTick (t : Text) : Prop :=
  t.head? ≠ some '`'

/-- Whether a text ends with a character other than a backtick. -/
def EndsRun (t : Text) : Prop :=
  ∃ u c, t = u ++ [c] ∧ c ≠ '`'

/-- How many backticks stand before each other character of a text, and at its end; `run` more
stand before the text. -/
def runs (run : Nat) : Text → List Nat
  | [] => [run]
  | c :: t => if c = '`' then runs (run + 1) t else run :: runs 0 t

def widths (t : Text) : List Nat :=
  (runs 0 t).filter (0 < ·)

theorem runs_append_cons {c : Char} (hc : c ≠ '`') :
    ∀ (run : Nat) (u t : Text), runs run (u ++ c :: t) = runs run u ++ runs 0 t
  | run, [], t => by simp [runs, hc]
  | run, d :: u, t => by
    simp only [List.cons_append, runs]
    split_ifs
    · exact runs_append_cons hc _ u t
    · rw [runs_append_cons hc _ u t, List.cons_append]

theorem runs_replicate (t : Text) :
    ∀ run n : Nat, runs run (List.replicate n '`' ++ t) = runs (run + n) t
  | run, 0 => rfl
  | run, n + 1 => by
    rw [List.replicate_succ, List.cons_append, runs, if_pos rfl, runs_replicate t]
    congr 1
    omega

@[simp] theorem widths_nil : widths [] = [] := rfl

theorem widths_cons {c : Char} (hc : c ≠ '`') (t : Text) : widths (c :: t) = widths t := by
  simp [widths, runs, hc]

theorem widths_replicate (n : Nat) {t : Text} (ht : NoTick t) :
    widths (List.replicate (n + 1) '`' ++ t) = (n + 1) :: widths t := by
  rw [widths, runs_replicate, Nat.zero_add]
  rcases t with _ | ⟨c, t⟩
  · simp [runs]
  · have hc : c ≠ '`' := by simpa [NoTick] using ht
    simp [widths, runs, hc]

theorem widths_append {u : Text} (hu : EndsRun u) (t : Text) :
    widths (u ++ t) = widths u ++ widths t := by
  obtain ⟨v, c, rfl, hc⟩ := hu
  simp only [widths, List.append_assoc, List.singleton_append]
  rw [runs_append_cons hc, runs_append_cons hc]
  simp [runs]

theorem widths_append_of_not_mem : ∀ {u : Text}, '`' ∉ u → ∀ t, widths (u ++ t) = widths t
  | [], _, t => rfl
  | c :: u, h, t => by
    simp only [List.mem_cons, not_or] at h
    rw [List.cons_append, widths_cons (Ne.symm h.1), widths_append_of_not_mem h.2]

theorem widths_concat {c : Char} (hc : c ≠ '`') (t : Text) : widths (t ++ [c]) = widths t := by
  simp [widths, runs_append_cons hc, runs]

theorem widths_append_right {u : Text} (hu : '`' ∉ u) (t : Text) : widths (t ++ u) = widths t := by
  rcases u with _ | ⟨c, u⟩
  · rw [List.append_nil]
  · have h := widths_append_of_not_mem (fun h => hu (.tail _ h)) []
    rw [List.append_nil, widths_nil] at h
    have hc : c ≠ '`' := fun h => hu (h ▸ List.mem_cons_self)
    rw [List.append_cons, widths_append ⟨t, c, rfl, hc⟩, widths_concat hc, h, List.append_nil]

theorem succ_mem_widths {n : Nat} {t : Text} : n + 1 ∈ widths t ↔ n + 1 ∈ runs 0 t := by
  simp [widths]

theorem succ_mem_runs {t : Text} (ht : NoTick t) {n run : Nat} :
    n + 1 ∈ runs run t ↔ n + 1 = run ∨ n + 1 ∈ widths t := by
  rw [succ_mem_widths]
  rcases t with _ | ⟨c, t⟩
  · simp [runs]
  · have hc : c ≠ '`' := by simpa [NoTick] using ht
    simp [runs, hc]

theorem exists_run (t : Text) : ∃ n rest, t = List.replicate n '`' ++ rest ∧ NoTick rest :=
  exists_replicate_append '`' t

end Runs

section Closing

theorem closingRun?_eq_none_iff {width : Nat} : ∀ {run place : Nat} {t : Text},
    closingRun? width run place t = none ↔ width ∉ runs run t
  | run, place, [] => by
    simp only [closingRun?, runs, beq_iff_eq, List.mem_singleton]
    split_ifs with h
    · simp [h]
    · simpa using Ne.symm h
  | run, place, c :: t => by
    simp only [closingRun?, runs, beq_iff_eq]
    split_ifs with hc hr
    · exact closingRun?_eq_none_iff
    · simp [hr]
    · rw [closingRun?_eq_none_iff, List.mem_cons, not_or]
      exact ⟨fun h => ⟨Ne.symm hr, h⟩, fun h => h.2⟩

theorem closingRun?_of_eq {width run : Nat} (hr : (run == width) = true) (place : Nat) {t : Text}
    (ht : NoTick t) : closingRun? width run place ([] ++ t) = some (place + 0, t) := by
  rcases t with _ | ⟨c, t⟩
  · simp [closingRun?, hr]
  · have hc : c ≠ '`' := by simpa [NoTick] using ht
    simp [closingRun?, hr, hc]

/-- What a run of `n + 1` backticks is closed by, wherever it stands and whatever other than a
backtick follows: the text up to the end of the next run of its width. -/
def Closes (n : Nat) (w : Text) : Prop :=
  ∀ place rest, NoTick rest → closingRun? (n + 1) 0 place (w ++ rest) = some (place + w.length, rest)

theorem closingRun?_eq_some {width : Nat} : ∀ {run place : Nat} {t : Text} {stop : Nat}
    {rest : Text}, closingRun? width run place t = some (stop, rest) →
      ∃ w, t = w ++ rest ∧ stop = place + w.length ∧ NoTick rest ∧
        ∀ place' rest', NoTick rest' →
          closingRun? width run place' (w ++ rest') = some (place' + w.length, rest')
  | run, place, [], stop, rest, h => by
    simp only [closingRun?] at h
    split_ifs at h with hr
    obtain ⟨rfl, rfl⟩ := by simpa using h
    exact ⟨[], rfl, rfl, by simp [NoTick], fun place' rest' => closingRun?_of_eq hr place'⟩
  | run, place, c :: t, stop, rest, h => by
    simp only [closingRun?] at h
    split_ifs at h with hc hr
    · obtain ⟨w, rfl, rfl, hn, hw⟩ := closingRun?_eq_some h
      refine ⟨c :: w, rfl, by simp only [List.length_cons]; omega, hn, fun place' rest' ht => ?_⟩
      rw [List.cons_append, closingRun?, if_pos hc, hw _ _ ht, List.length_cons, Nat.add_assoc,
        Nat.add_comm 1]
    · obtain ⟨rfl, rfl⟩ := by simpa using h
      have hn : NoTick (c :: t) := by simpa [NoTick] using hc
      exact ⟨[], rfl, rfl, hn, fun place' rest' => closingRun?_of_eq hr place'⟩
    · obtain ⟨w, rfl, rfl, hn, hw⟩ := closingRun?_eq_some h
      refine ⟨c :: w, rfl, by simp only [List.length_cons]; omega, hn, fun place' rest' ht => ?_⟩
      rw [List.cons_append, closingRun?, if_neg hc, if_neg hr, hw _ _ ht, List.length_cons,
        Nat.add_assoc, Nat.add_comm 1]

/-- A run of backticks is answered by none of its width, or else by the next one. -/
theorem not_mem_or_closes (n : Nat) (t : Text) :
    n + 1 ∉ widths t ∨ ∃ w rest, t = w ++ rest ∧ NoTick rest ∧ Closes n w := by
  rcases hs : closingRun? (n + 1) 0 0 t with _ | ⟨stop, rest⟩
  · rw [closingRun?_eq_none_iff, ← succ_mem_widths] at hs
    exact .inl hs
  · obtain ⟨w, rfl, -, hr, hw⟩ := closingRun?_eq_some hs
    exact .inr ⟨w, rest, rfl, hr, hw⟩

end Closing

section Spans

@[simp] theorem codeSpansFrom_nil (place : Nat) : codeSpansFrom place [] = [] := by
  rw [codeSpansFrom]

theorem codeSpansFrom_cons {c : Char} (hc : c ≠ '`') (place : Nat) (t : Text) :
    codeSpansFrom place (c :: t) = codeSpansFrom (place + 1) t := by
  rw [codeSpansFrom, if_neg (by simpa using hc)]

theorem codeSpansFrom_replicate (place n : Nat) {t : Text} (ht : NoTick t) :
    codeSpansFrom place (List.replicate (n + 1) '`' ++ t) =
      match closingRun? (n + 1) 0 (place + (n + 1)) t with
      | some (stop, rest) => ⟨place, stop⟩ :: codeSpansFrom stop rest
      | none => codeSpansFrom (place + (n + 1)) t := by
  have h1 := takeWhile_replicate_append n ht
  have h2 := dropWhile_replicate_append n ht
  have hopened : place + (List.replicate n '`').length + 1 = place + (n + 1) := by
    rw [List.length_replicate]
    omega
  have hwidth : place + (n + 1) - place = n + 1 := by omega
  rw [List.replicate_succ, List.cons_append, codeSpansFrom, if_pos (by simp)]
  dsimp only
  split <;> next hs =>
    rw [h1, h2, hopened, hwidth] at hs
    simp only [hs, h1, h2, hopened]

theorem codeSpansFrom_of_not_mem {n : Nat} {t : Text} (ht : NoTick t) (h : n + 1 ∉ widths t)
    (place : Nat) : codeSpansFrom place (List.replicate (n + 1) '`' ++ t) =
      codeSpansFrom (place + (n + 1)) t := by
  have hs : closingRun? (n + 1) 0 (place + (n + 1)) t = none :=
    closingRun?_eq_none_iff.2 fun hm => h (succ_mem_widths.2 hm)
  rw [codeSpansFrom_replicate place n ht, hs]

theorem codeSpansFrom_of_closes {n : Nat} {w t : Text} (hw : Closes n w) (hwt : NoTick (w ++ t))
    (ht : NoTick t) (place : Nat) : codeSpansFrom place (List.replicate (n + 1) '`' ++ (w ++ t)) =
      ⟨place, place + (n + 1) + w.length⟩ :: codeSpansFrom (place + (n + 1) + w.length) t := by
  rw [codeSpansFrom_replicate place n hwt, hw _ t ht]

theorem run_induction {motive : Text → Prop} (nil : motive [])
    (char : ∀ c t, c ≠ '`' → motive t → motive (c :: t))
    (run : ∀ n t, NoTick t → motive t → motive (List.replicate (n + 1) '`' ++ t)) (t : Text) :
    motive t := by
  induction hn : t.length using Nat.strongRecOn generalizing t with
  | _ m ih =>
    obtain ⟨n, rest, rfl, hr⟩ := exists_run t
    rcases n with _ | n
    · rcases rest with _ | ⟨c, rest⟩
      · exact nil
      · refine char c rest (by simpa [NoTick] using hr) (ih rest.length ?_ rest rfl)
        simp only [List.replicate_zero, List.nil_append, List.length_cons] at hn
        omega
    · refine run n rest hr (ih rest.length ?_ rest rfl)
      simp only [List.length_append, List.length_replicate] at hn
      omega

theorem scan_induction {motive : Text → Prop} (nil : motive [])
    (char : ∀ c t, c ≠ '`' → motive t → motive (c :: t))
    (idle : ∀ n t, NoTick t → n + 1 ∉ widths t → motive t →
      motive (List.replicate (n + 1) '`' ++ t))
    (span : ∀ n w t, Closes n w → NoTick (w ++ t) → NoTick t → motive t →
      motive (List.replicate (n + 1) '`' ++ (w ++ t))) (t : Text) : motive t := by
  induction hn : t.length using Nat.strongRecOn generalizing t with
  | _ m ih =>
    obtain ⟨n, rest, rfl, hr⟩ := exists_run t
    rcases n with _ | n
    · rcases rest with _ | ⟨c, rest⟩
      · exact nil
      · refine char c rest (by simpa [NoTick] using hr) (ih rest.length ?_ rest rfl)
        simp only [List.replicate_zero, List.nil_append, List.length_cons] at hn
        omega
    · simp only [List.length_append, List.length_replicate] at hn
      rcases not_mem_or_closes n rest with h | ⟨w, rest, rfl, hr', hw⟩
      · exact idle n rest hr h (ih rest.length (by omega) rest rfl)
      · rw [List.length_append] at hn
        exact span n w rest hw hr hr' (ih rest.length (by omega) rest rfl)

/-- Spans one after the other between two places, none of them empty. -/
def Within (start stop : Nat) : List Span → Prop
  | [] => start ≤ stop
  | s :: spans => start ≤ s.start ∧ s.start < s.stop ∧ Within s.stop stop spans

theorem Within.mono {start start' stop : Nat} (hs : start' ≤ start) :
    ∀ {spans : List Span}, Within start stop spans → Within start' stop spans
  | [], h => Nat.le_trans hs h
  | _ :: _, h => ⟨Nat.le_trans hs h.1, h.2⟩

theorem Within.of_mem {stop : Nat} {s : Span} : ∀ {start : Nat} {spans : List Span},
    Within start stop spans → s ∈ spans → start ≤ s.start ∧ s.start < s.stop
  | _, s' :: spans, ⟨h1, h2, h⟩, hs => by
    rcases List.mem_cons.1 hs with rfl | hs
    · exact ⟨h1, h2⟩
    · have := h.of_mem hs
      omega

theorem within_codeSpansFrom (t : Text) :
    ∀ place, Within place (place + t.length) (codeSpansFrom place t) := by
  induction t using scan_induction with
  | nil => exact fun place => by simp [Within]
  | char c t hc ih =>
    intro place
    rw [codeSpansFrom_cons hc, List.length_cons, Nat.add_comm t.length, ← Nat.add_assoc]
    exact (ih (place + 1)).mono (by omega)
  | idle n t ht hn ih =>
    intro place
    rw [codeSpansFrom_of_not_mem ht hn, List.length_append, List.length_replicate, ← Nat.add_assoc]
    exact (ih (place + (n + 1))).mono (by omega)
  | span n w t hw hwt ht ih =>
    intro place
    rw [codeSpansFrom_of_closes hw hwt ht, List.length_append, List.length_append,
      List.length_replicate, ← Nat.add_assoc, ← Nat.add_assoc]
    exact ⟨Nat.le_refl _, by simp only; omega, ih _⟩

end Spans

section Idle

/-- Whether the runs of backticks of a text are different from each other and from all that
follow. -/
def Idle (u t : Text) : Prop :=
  (widths u).Nodup ∧ (widths u).Disjoint (widths t)

variable {c : Char} (hc : c ≠ '`') (t : Text)

include hc

theorem not_mem_widths_append_cons {n : Nat} {u : Text} :
    n ∉ widths (u ++ c :: t) ↔ n ∉ widths u ∧ n ∉ widths t := by
  rw [List.append_cons, widths_append ⟨u, c, rfl, hc⟩, widths_concat hc, List.mem_append, not_or]

theorem noTick_append_cons {u : Text} (hu : NoTick u) : NoTick (u ++ c :: t) := by
  rcases u with _ | ⟨d, u⟩
  · simpa [NoTick] using hc
  · exact hu

/-- What begins no span has runs that nothing answers. -/
theorem idle_of_spans (u : Text) : ∀ place,
    (∀ s ∈ codeSpansFrom place (u ++ c :: t), place + u.length < s.start) → Idle u t := by
  induction u using run_induction with
  | nil => exact fun place _ => ⟨.nil, List.disjoint_nil_left _⟩
  | char d u hd ih =>
    intro place h
    rw [List.cons_append, codeSpansFrom_cons hd] at h
    have := ih (place + 1) fun s hs => by
      have := h s hs
      rw [List.length_cons] at this
      omega
    rwa [Idle, widths_cons hd]
  | run n u hu ih =>
    intro place h
    rw [List.append_assoc] at h
    rcases not_mem_or_closes n (u ++ c :: t) with hn | ⟨w, rest, hw, hr, hcl⟩
    · rw [codeSpansFrom_of_not_mem (noTick_append_cons hc t hu) hn] at h
      obtain ⟨h1, h2⟩ := ih (place + (n + 1)) fun s hs => by
        have := h s hs
        rw [List.length_append, List.length_replicate] at this
        omega
      rw [not_mem_widths_append_cons hc] at hn
      rw [Idle, widths_replicate n hu, List.nodup_cons, List.disjoint_cons_left]
      exact ⟨⟨hn.1, h1⟩, hn.2, h2⟩
    · have hu' := noTick_append_cons hc t hu
      rw [hw] at h hu'
      rw [codeSpansFrom_of_closes hcl hu' hr] at h
      have := h _ List.mem_cons_self
      simp only at this
      omega

theorem codeSpansFrom_of_idle (u : Text) : ∀ place, Idle u t →
    codeSpansFrom place (u ++ c :: t) = codeSpansFrom (place + (u.length + 1)) t := by
  induction u using run_induction with
  | nil => exact fun place _ => codeSpansFrom_cons hc place t
  | char d u hd ih =>
    intro place h
    rw [Idle, widths_cons hd] at h
    rw [List.cons_append, codeSpansFrom_cons hd, ih _ h, List.length_cons]
    congr 1
    omega
  | run n u hu ih =>
    intro place h
    rw [Idle, widths_replicate n hu, List.nodup_cons, List.disjoint_cons_left] at h
    have hn : n + 1 ∉ widths (u ++ c :: t) := (not_mem_widths_append_cons hc t).2 ⟨h.1.1, h.2.1⟩
    rw [List.append_assoc, codeSpansFrom_of_not_mem (noTick_append_cons hc t hu) hn,
      ih _ ⟨h.1.2, h.2.2⟩, List.length_append, List.length_replicate]
    congr 1
    omega

end Idle

section Texts

def Span.text (s : Span) (t : Text) : Text :=
  (t.drop s.start).take (s.stop - s.start)

/-- The code spans of a line as texts, backticks included. -/
def codeTexts (line : Text) : List Text :=
  (codeSpans line).map (·.text line)

def codeTextsFrom (place : Nat) (t : Text) : List Text :=
  (codeSpansFrom place t).map fun s => Span.text ⟨s.start - place, s.stop - place⟩ t

theorem codeTexts_eq (line : Text) : codeTexts line = codeTextsFrom 0 line := rfl

theorem text_append (place : Nat) (u t : Text) :
    ((codeSpansFrom (place + u.length) t).map fun s =>
      Span.text ⟨s.start - place, s.stop - place⟩ (u ++ t)) = codeTextsFrom (place + u.length) t := by
  refine List.map_congr_left fun s hs => ?_
  obtain ⟨h1, h2⟩ := (within_codeSpansFrom t _).of_mem hs
  have hd : s.start - place = u.length + (s.start - (place + u.length)) := by omega
  have ht : s.stop - place - (s.start - place) =
      s.stop - (place + u.length) - (s.start - (place + u.length)) := by omega
  simp only [Span.text]
  rw [ht, hd, ← List.drop_drop, List.drop_left]

theorem codeTextsFrom_append {place : Nat} {u t : Text}
    (h : codeSpansFrom place (u ++ t) = codeSpansFrom (place + u.length) t) :
    codeTextsFrom place (u ++ t) = codeTextsFrom (place + u.length) t := by
  rw [codeTextsFrom, h, text_append]

theorem codeTextsFrom_span {place : Nat} {w t : Text}
    (h : codeSpansFrom place (w ++ t) =
      ⟨place, place + w.length⟩ :: codeSpansFrom (place + w.length) t) :
    codeTextsFrom place (w ++ t) = w :: codeTextsFrom (place + w.length) t := by
  rw [codeTextsFrom, h, List.map_cons, text_append]
  simp [Span.text]

theorem codeTextsFrom_cons {c : Char} (hc : c ≠ '`') (place : Nat) (t : Text) :
    codeTextsFrom place (c :: t) = codeTextsFrom (place + 1) t := by
  have h : codeSpansFrom place ([c] ++ t) = codeSpansFrom (place + [c].length) t :=
    codeSpansFrom_cons hc place t
  exact codeTextsFrom_append h

theorem codeTextsFrom_of_not_mem {n : Nat} {t : Text} (ht : NoTick t) (h : n + 1 ∉ widths t)
    (place : Nat) : codeTextsFrom place (List.replicate (n + 1) '`' ++ t) =
      codeTextsFrom (place + (n + 1)) t := by
  have hs := codeSpansFrom_of_not_mem ht h place
  have hlen : (List.replicate (n + 1) '`').length = n + 1 := List.length_replicate
  rw [codeTextsFrom_append (by rw [hs, hlen]), hlen]

theorem codeTextsFrom_of_closes {n : Nat} {w t : Text} (hw : Closes n w) (hwt : NoTick (w ++ t))
    (ht : NoTick t) (place : Nat) : codeTextsFrom place (List.replicate (n + 1) '`' ++ (w ++ t)) =
      (List.replicate (n + 1) '`' ++ w) :: codeTextsFrom (place + (n + 1) + w.length) t := by
  have hs := codeSpansFrom_of_closes hw hwt ht place
  have hlen : (List.replicate (n + 1) '`' ++ w).length = n + 1 + w.length := by
    rw [List.length_append, List.length_replicate]
  rw [Nat.add_assoc] at hs ⊢
  rw [← List.append_assoc] at hs ⊢
  rw [codeTextsFrom_span (by rw [hs, hlen]), hlen]

end Texts

end TidyMark.Reflink
