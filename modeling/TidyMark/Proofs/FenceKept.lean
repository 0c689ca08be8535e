import TidyMark.Proofs.BlockApart
import TidyMark.Proofs.FenceLines

/-!
# What becomes of fenced code

Fenced code is written below a fence that is longer than every run of backticks in it, with the
first word of its information and without the line feeds at its ends. Then its blank lines are
condensed like those of the whole document (`polish_fenced`), which makes no run of backticks longer
(`longestTicks_condenseAfter`), so no line closes the fence early and the code is read again
(`tokenize_fenced`). It is the same code exactly when its language is read again as it was and no
two blank lines stand in a row (`tokenize_render_fence`).
-/

namespace TidyMark

namespace Text

section Condensing

variable {t : Text} {c : Char}

/-- What stands before a character that is no break is condensed alone. -/
theorem exists_condenseAfter_of_ne (hc : c ≠ '\n' ∧ c ≠ '\r') (u : Text) (run : List Break) :
    ∃ w, ∀ t, condenseAfter run (u ++ c :: t) = w ++ c :: condense t := by
  fun_induction condenseAfter run u with
  | case1 run => exact ⟨condenseRun run, fun t => Render.condenseAfter_of_ne hc.1 run (absurd · hc.2)⟩
  | case2 run rest ih =>
    obtain ⟨w, hw⟩ := ih
    exact ⟨w, fun t => by rw [List.cons_append, condenseAfter, hw]⟩
  | case3 run rest ih =>
    obtain ⟨w, hw⟩ := ih
    exact ⟨w, fun t => by rw [List.cons_append, List.cons_append, condenseAfter, hw]⟩
  | case4 run d rest hn hr ih =>
    obtain ⟨w, hw⟩ := ih
    refine ⟨condenseRun run ++ d :: w, fun t => ?_⟩
    rw [List.cons_append, Render.condenseAfter_of_ne (by simpa using hn) run, hw]
    · simp
    · rintro rfl
      rcases rest with _ | ⟨e, rest⟩
      · simpa using hc.1
      · simpa using fun he : e = '\n' => hr rest rfl (he ▸ rfl)

theorem mem_of_mem_condenseRun {run : List Break} {b : Break} (h : c ∈ condenseRun (b :: run))
    (hc : c ≠ '\n') : c ∈ b.text := by
  rcases run with _ | ⟨d, run⟩
  · exact h
  · simp [condenseRun, hc] at h

/-- Condensing adds nothing but line feeds. -/
theorem mem_of_mem_condenseAfter {run : List Break} (h : c ∈ condenseAfter run t) (hc : c ≠ '\n') :
    c ∈ condenseRun run ∨ c ∈ t := by
  fun_induction condenseAfter run t with
  | case1 run => exact .inl h
  | case2 run rest ih =>
    rcases ih h with h | h
    · exact absurd (List.mem_singleton.1 (mem_of_mem_condenseRun h hc)) hc
    · exact .inr (List.mem_cons_of_mem _ h)
  | case3 run rest ih =>
    rcases ih h with h | h
    · have hbreak := mem_of_mem_condenseRun h hc
      exact .inr (List.mem_append_left rest hbreak)
    · exact .inr (List.mem_cons_of_mem _ (List.mem_cons_of_mem _ h))
  | case4 run d rest hn hr ih =>
    rcases List.mem_append.1 h with h | h
    · exact .inl h
    · rcases List.mem_cons.1 h with rfl | h
      · exact .inr List.mem_cons_self
      · exact (ih h).elim (fun h => absurd h List.not_mem_nil) fun h =>
          .inr (List.mem_cons_of_mem _ h)

theorem length_condenseRun_cons (b : Break) (run : List Break) :
    (condenseRun (b :: run)).length ≤ (condenseRun run).length + b.text.length := by
  rcases run with _ | ⟨d, _ | ⟨e, run⟩⟩
  · simp [condenseRun]
  · cases b <;> cases d <;> simp [condenseRun, Break.text]
  · simp [condenseRun]

theorem length_condenseAfter_le (run : List Break) (t : Text) :
    (condenseAfter run t).length ≤ (condenseRun run).length + t.length := by
  fun_induction condenseAfter run t with
  | case1 run => simp
  | case2 run rest ih =>
    have := length_condenseRun_cons .lineFeed run
    simp only [Break.text, List.length_cons, List.length_nil] at this ⊢
    omega
  | case3 run rest ih =>
    have := length_condenseRun_cons .returnLineFeed run
    simp only [Break.text, List.length_cons, List.length_nil] at this ⊢
    omega
  | case4 run c rest hn hr ih =>
    simp only [condenseRun, List.length_append, List.length_cons, List.length_nil] at ih ⊢
    omega

theorem length_condenseAfter_lt {a : Text} (ha : '\r' ∉ a) (b : Text) (run : List Break) :
    (condenseAfter run (a ++ '\n' :: '\n' :: '\n' :: b)).length <
      (condenseRun run).length + (a ++ '\n' :: '\n' :: '\n' :: b).length := by
  induction a generalizing run with
  | nil =>
    have := length_condenseAfter_le (.lineFeed :: .lineFeed :: .lineFeed :: run) b
    simp only [List.nil_append, condenseAfter, condenseRun, List.length_cons,
      List.length_nil] at this ⊢
    omega
  | cons d a ih =>
    simp only [List.mem_cons, not_or] at ha
    by_cases hd : d = '\n'
    · have hrun := length_condenseRun_cons .lineFeed run
      have := ih ha.2 (.lineFeed :: run)
      simp only [hd, List.cons_append, condenseAfter, Break.text, List.length_cons,
        List.length_nil] at hrun this ⊢
      omega
    · have := ih ha.2 []
      rw [List.cons_append, Render.condenseAfter_of_ne hd run fun he => absurd he.symm ha.1]
      simp only [condenseRun, List.length_append, List.length_cons, List.length_nil] at this ⊢
      omega

/-- Two blank lines in a row. -/
def blankLines : Text :=
  ['\n', '\n', '\n']

theorem condenseAfter_replicate {t : Text} (ht : '\r' ∉ t) {k : Nat} (hk : k ≤ 2)
    (hblank : ¬ blankLines <:+: List.replicate k '\n' ++ t) :
    condenseAfter (List.replicate k .lineFeed) t = List.replicate k '\n' ++ t := by
  have hrun : ∀ k ≤ 2, condenseRun (List.replicate k .lineFeed) = List.replicate k '\n' := by
    decide
  induction t generalizing k with
  | nil => rw [condenseAfter, List.append_nil, hrun k hk]
  | cons d t ih =>
    simp only [List.mem_cons, not_or] at ht
    by_cases hd : d = '\n'
    · subst hd
      have hshift : List.replicate k '\n' ++ '\n' :: t = List.replicate (k + 1) '\n' ++ t := by
        rw [List.replicate_succ', List.append_assoc, List.singleton_append]
      rw [hshift] at hblank ⊢
      rw [condenseAfter, ← List.replicate_succ]
      refine ih ht.2 ?_ hblank
      rcases Nat.lt_or_eq_of_le hk with hlt | rfl
      · omega
      · exact absurd (List.prefix_append blankLines t).isInfix hblank
    · rw [Render.condenseAfter_of_ne hd _ fun he => absurd he.symm ht.1, hrun k hk,
        ← List.replicate_zero, ih ht.2 (Nat.zero_le 2) fun h => hblank ?_]
      · rfl
      · exact h.trans ((List.suffix_cons d t).trans (List.suffix_append _ _)).isInfix

/-- Without carriage returns exactly a text without two blank lines in a row is left as it is. -/
theorem condense_eq_self_iff {t : Text} (ht : '\r' ∉ t) :
    condense t = t ↔ ¬ blankLines <:+: t := by
  constructor
  · rintro h ⟨a, b, rfl⟩
    have ha : '\r' ∉ a := fun hmem => ht (by simp [hmem])
    have hlt := length_condenseAfter_lt ha b []
    rw [List.append_assoc] at h
    rw [← condense] at hlt
    have hlength := congrArg List.length h
    simp only [blankLines, condenseRun, List.cons_append, List.nil_append, List.length_nil] at hlt hlength
    omega
  · exact fun h => condenseAfter_replicate (k := 0) ht (Nat.zero_le 2) h

end Condensing

end Text

namespace Render

section Ticks

variable {s t u : Text}

theorem longestTicks_mono (t : Text) : ∀ {m n : Nat}, m ≤ n → longestTicks m t ≤ longestTicks n t := by
  induction t with
  | nil => exact id
  | cons c t ih =>
    intro m n h
    rw [longestTicks, longestTicks]
    split_ifs
    · exact ih (Nat.succ_le_succ h)
    · exact Nat.max_le.2 ⟨h.trans (Nat.le_max_left _ _), Nat.le_max_right _ _⟩

theorem longestTicks_le_append (s t : Text) : ∀ run : Nat,
    longestTicks 0 t ≤ longestTicks run (s ++ t) := by
  induction s with
  | nil => exact fun run => longestTicks_mono t (Nat.zero_le run)
  | cons c s ih =>
    intro run
    rw [List.cons_append, longestTicks]
    split_ifs
    · exact ih (run + 1)
    · exact (ih 0).trans (Nat.le_max_right _ _)

theorem runLength_le_longestTicks (t : Text) : ∀ run : Nat,
    run + Markdown.runLength '`' t ≤ longestTicks run t := by
  unfold Markdown.runLength
  induction t with
  | nil => exact fun run => Nat.le_refl run
  | cons c t ih =>
    intro run
    rw [longestTicks, List.takeWhile_cons]
    split_ifs
    · have := ih (run + 1)
      rw [List.length_cons]
      omega
    · exact Nat.le_max_left _ _

theorem longestTicks_append_le (s t : Text) : ∀ run : Nat,
    longestTicks run s ≤ longestTicks run (s ++ t) := by
  induction s with
  | nil => exact fun run => Nat.le_of_add_right_le (runLength_le_longestTicks t run)
  | cons c s ih =>
    intro run
    rw [List.cons_append, longestTicks, longestTicks]
    split_ifs
    · exact ih (run + 1)
    · exact Nat.max_le.2 ⟨Nat.le_max_left _ _, (ih 0).trans (Nat.le_max_right _ _)⟩

theorem runLength_le_of_isInfix (h : s <:+: t) : Markdown.runLength '`' s ≤ longestTicks 0 t := by
  obtain ⟨a, b, rfl⟩ := h
  have hrun := runLength_le_longestTicks s 0
  have hfront := longestTicks_append_le s b 0
  have hback := longestTicks_le_append a (s ++ b) 0
  rw [List.append_assoc]
  omega

/-- Only the runs of backticks of what comes behind count. -/
theorem longestTicks_congr (s : Text) (h : ∀ run, longestTicks run t = longestTicks run u) :
    ∀ run, longestTicks run (s ++ t) = longestTicks run (s ++ u) := by
  induction s with
  | nil => exact h
  | cons c s ih =>
    intro run
    rw [List.cons_append, List.cons_append, longestTicks, longestTicks, ih, ih]

theorem longestTicks_newline (t : Text) (run : Nat) :
    longestTicks run (t ++ ['\n']) = longestTicks run t := by
  have hend : ∀ run, longestTicks run ['\n'] = longestTicks run [] := fun run => Nat.max_zero run
  have h := longestTicks_congr t hend run
  rwa [List.append_nil] at h

theorem longestTicks_append_of_not_mem (t : Text) : ∀ {s : Text}, '`' ∉ s → s ≠ [] → ∀ run : Nat,
    longestTicks run (s ++ t) = max run (longestTicks 0 t)
  | [c], hs, _, run => by
    have hc : (c == '`') = false := beq_false_of_ne fun he => hs (he ▸ List.mem_cons_self)
    rw [List.singleton_append, longestTicks, hc]
    rfl
  | c :: d :: s, hs, _, run => by
    have hc : (c == '`') = false := beq_false_of_ne fun he => hs (he ▸ List.mem_cons_self)
    have hrest : '`' ∉ d :: s := fun hmem => hs (List.mem_cons_of_mem _ hmem)
    rw [List.cons_append, longestTicks, hc,
      longestTicks_append_of_not_mem t hrest (List.cons_ne_nil d s) 0, Nat.zero_max]
    rfl

theorem tick_not_mem_condenseRun : ∀ run : List Text.Break, '`' ∉ Text.condenseRun run
  | [] => by decide
  | [.lineFeed] => by decide
  | [.returnLineFeed] => by decide
  | _ :: _ :: _ => by simp [Text.condenseRun]

/-- Condensing makes no run of backticks longer or shorter. -/
theorem longestTicks_condenseAfter (run : List Text.Break) (t : Text) : ∀ n : Nat,
    longestTicks n (Text.condenseAfter run t) = longestTicks n (Text.condenseRun run ++ t) := by
  have hbreak : ∀ (b : Text.Break) (run : List Text.Break) (rest : Text) (n : Nat),
      longestTicks n (Text.condenseRun (b :: run) ++ rest) =
        longestTicks n (Text.condenseRun run ++ (b.text ++ rest)) := by
    intro b run rest n
    have hleft : Text.condenseRun (b :: run) ≠ [] := by
      rcases run with _ | ⟨d, run⟩
      · cases b <;> decide
      · simp [Text.condenseRun]
    have hright : '`' ∉ Text.condenseRun run ++ b.text := by
      rw [List.mem_append, not_or]
      exact ⟨tick_not_mem_condenseRun run, by cases b <;> decide⟩
    have hne : Text.condenseRun run ++ b.text ≠ [] := by
      cases b <;> simp [Text.Break.text]
    rw [← List.append_assoc, longestTicks_append_of_not_mem rest (tick_not_mem_condenseRun _) hleft,
      longestTicks_append_of_not_mem rest hright hne]
  fun_induction Text.condenseAfter run t with
  | case1 run => simp
  | case2 run rest ih => exact fun n => (ih n).trans (hbreak .lineFeed run rest n)
  | case3 run rest ih => exact fun n => (ih n).trans (hbreak .returnLineFeed run rest n)
  | case4 run c rest hn hr ih =>
    refine longestTicks_congr _ fun n => ?_
    rw [longestTicks, longestTicks, ih, ih]
    rfl

end Ticks

section Trimming

variable {t : Text}

theorem trimLineFeeds_subset (t : Text) : trimLineFeeds t ⊆ t :=
  List.Subset.trans (Reflink.dropEndWhile_initial _ _).subset (List.dropWhile_suffix _).subset

theorem head?_trimLineFeeds (t : Text) : (trimLineFeeds t).head? ≠ some '\n' := by
  intro h
  obtain ⟨rest, hrest⟩ := Reflink.dropEndWhile_initial (· == '\n') (t.dropWhile (· == '\n'))
  rw [← trimLineFeeds] at hrest
  have hfirst := List.head?_dropWhile_not (· == '\n') t
  rw [← hrest, List.head?_append, h] at hfirst
  cases hfirst

theorem getLast?_trimLineFeeds (t : Text) : (trimLineFeeds t).getLast? ≠ some '\n' := by
  rw [trimLineFeeds, Text.dropEndWhile, List.getLast?_reverse]
  intro h
  have hlast := List.head?_dropWhile_not (· == '\n') (t.dropWhile (· == '\n')).reverse
  rw [h] at hlast
  cases hlast

theorem trimLineFeeds_append (hhead : t.head? ≠ some '\n') (hlast : t.getLast? ≠ some '\n') :
    trimLineFeeds (t ++ ['\n']) = t := by
  have hdrop : (t ++ ['\n']).dropWhile (· == '\n') = if t = [] then [] else t ++ ['\n'] := by
    rcases t with _ | ⟨c, t⟩
    · rfl
    · simpa using fun hc : c = '\n' => absurd (congrArg some hc) hhead
  rw [trimLineFeeds, hdrop]
  split_ifs with ht
  · exact ht.symm
  · rw [Reflink.dropEndWhile_append_of_all _ (by simp)]
    refine Reflink.dropEndWhile_eq_self fun hne => beq_false_of_ne fun he => hlast ?_
    rw [List.getLast?_eq_some_getLast hne, he]

end Trimming

section Writing

variable {n : Nat} {lang body : Text}

theorem isBlank_of_mem_ticks {c : Char} (hc : c ∈ ticks n) : isBlank c = false := by
  obtain ⟨-, rfl⟩ := List.mem_replicate.1 hc
  rfl

/-- A word is not condensed. -/
theorem condenseAfter_word {w : Text} (hne : w ≠ []) (hw : ∀ c ∈ w, isBlank c = false)
    (run : List Text.Break) (t : Text) :
    Text.condenseAfter run (w ++ t) = Text.condenseRun run ++ (w ++ Text.condense t) := by
  obtain ⟨m, c, rfl⟩ := (List.eq_nil_or_concat w).resolve_left hne
  have hm : '\n' ∉ m := fun hmem => by
    have := hw '\n' (by simp [hmem])
    cases this
  rw [List.concat_eq_append, List.append_assoc, List.append_assoc, List.singleton_append,
    List.singleton_append]
  exact condenseAfter_line hm (hw c (by simp)) run t

theorem condense_cons {c : Char} (hc : c ≠ '\n' ∧ c ≠ '\r') (t : Text) :
    Text.condense (c :: t) = c :: Text.condense t :=
  condenseAfter_of_ne hc.1 [] fun h => absurd h hc.2

section Lines

variable (hreturn : '\r' ∉ body) (hhead : body.head? ≠ some '\n')
  (hlast : body.getLast? ≠ some '\n')

include hreturn

theorem isNoBreak_of_mem {c : Char} (hc : c ∈ body) (hn : c ≠ '\n') : c ≠ '\n' ∧ c ≠ '\r' :=
  ⟨hn, fun he => hreturn (he ▸ hc)⟩

include hlast in
/-- What ends with something is condensed alone. -/
theorem exists_condense_append (hne : body ≠ []) : ∃ w d, d ≠ '\n' ∧
    Text.condense body = w ++ [d] ∧
      ∀ t, Text.condense (body ++ t) = Text.condense body ++ Text.condense t := by
  obtain ⟨u, d, rfl⟩ := (List.eq_nil_or_concat body).resolve_left hne
  rw [List.concat_eq_append] at hreturn hlast ⊢
  have hd : d ≠ '\n' := by simpa using hlast
  obtain ⟨w, hw⟩ := Text.exists_condenseAfter_of_ne
    (isNoBreak_of_mem hreturn (by simp) hd) u []
  have hnil : Text.condense (u ++ [d]) = w ++ [d] := hw []
  refine ⟨w, d, hd, hnil, fun t => ?_⟩
  rw [hnil, List.append_assoc, List.append_assoc]
  exact hw t

include hhead in
theorem head?_condense : (Text.condense body).head? = body.head? := by
  rcases body with _ | ⟨c, b⟩
  · rfl
  · have hc : c ≠ '\n' := by simpa using hhead
    rw [condense_cons (isNoBreak_of_mem hreturn List.mem_cons_self hc)]
    rfl

include hhead in
theorem condense_newline (hne : body ≠ []) (t : Text) :
    Text.condense ('\n' :: (body ++ t)) = '\n' :: Text.condense (body ++ t) := by
  obtain ⟨c, b, rfl⟩ := List.exists_cons_of_ne_nil hne
  have hc : c ≠ '\n' := by simpa using hhead
  have hbreak := isNoBreak_of_mem hreturn List.mem_cons_self hc
  rw [List.cons_append, condense_cons hbreak]
  exact condenseAfter_of_ne hc [.lineFeed] fun h => absurd h hbreak.2

include hhead hlast

/-- Lines that begin and end with something are condensed apart from the words around them. -/
theorem condense_lines {w : Text} (hne : w ≠ []) (hw : ∀ c ∈ w, isBlank c = false) (t : Text) :
    Text.condense ('\n' :: (body ++ '\n' :: (w ++ t))) =
      '\n' :: (Text.condense body ++ '\n' :: (w ++ Text.condense t)) := by
  by_cases hbody : body = []
  · rw [hbody]
    exact condenseAfter_word hne hw [.lineFeed, .lineFeed] t
  · obtain ⟨-, -, -, -, happend⟩ := exists_condense_append hreturn hlast hbody
    rw [condense_newline hreturn hhead hbody, happend]
    exact congrArg ('\n' :: Text.condense body ++ ·) (condenseAfter_word hne hw [.lineFeed] t)

omit hhead in
theorem getLast?_condense : (Text.condense body).getLast? ≠ some '\n' := by
  by_cases hbody : body = []
  · rw [hbody]
    decide
  · obtain ⟨w, d, hd, hcondense, -⟩ := exists_condense_append hreturn hlast hbody
    simpa [hcondense] using hd

end Lines

theorem ticks_ne_nil (h : 3 ≤ n) : ticks n ≠ [] := by
  rw [ticks, Ne, List.replicate_eq_nil_iff]
  omega

theorem trim_ticks (h : 3 ≤ n) (t : Text) :
    Text.trim ('\n' :: (ticks n ++ (t ++ '\n' :: (ticks n ++ ['\n', '\n'])))) =
      ticks n ++ (t ++ '\n' :: ticks n) := by
  obtain ⟨rest, hrest⟩ := Markdown.exists_ticks_append h (t ++ '\n' :: ticks n)
  have htext : '\n' :: (ticks n ++ (t ++ '\n' :: (ticks n ++ ['\n', '\n']))) =
      '\n' :: '`' :: rest ++ ['\n', '\n'] := by
    rw [List.cons_append, ← hrest]
    simp
  have hlast : ('`' :: rest).getLast? = some '`' := by
    obtain ⟨m, rfl⟩ : ∃ m, n = m + 1 := ⟨n - 1, by omega⟩
    rw [← hrest]
    simp [ticks, List.getLast?_cons, List.getLast?_replicate]
  have hstart : Text.trimStart ('\n' :: '`' :: rest ++ ['\n', '\n']) =
      '`' :: rest ++ ['\n', '\n'] := rfl
  have hblank : ∀ c ∈ ['\n', '\n'], isBlank c = true :=
    List.forall_mem_cons.2 ⟨rfl, List.forall_mem_singleton.2 rfl⟩
  rw [htext, Text.trim, hstart, Text.trimEnd, Reflink.dropEndWhile_append_of_all _ hblank, hrest]
  refine Reflink.dropEndWhile_eq_self fun hne => ?_
  rw [List.getLast?_eq_some_getLast hne] at hlast
  rw [Option.some.inj hlast]
  rfl

/-- What is written for fenced code. Only its blank lines are condensed. -/
theorem polish_fenced (hn : 3 ≤ n) (hlang : ∀ c ∈ lang, isBlank c = false) (hreturn : '\r' ∉ body)
    (hhead : body.head? ≠ some '\n') (hlast : body.getLast? ≠ some '\n') :
    polish {} ("\n" ++ ticks n ++ lang ++ "\n" ++ body ++ "\n" ++ ticks n ++ "\n" ++ ['\n']) =
      ticks n ++ lang ++ '\n' :: (Text.condense body ++ '\n' :: (ticks n ++ ['\n'])) := by
  have hticks := ticks_ne_nil hn
  have hword : ∀ c ∈ ticks n ++ lang, isBlank c = false := fun c hc =>
    (List.mem_append.1 hc).elim isBlank_of_mem_ticks (hlang c)
  have hpolish : ∀ out, polish {} out = Text.trim (Text.condense out) ++ ['\n'] := fun out => rfl
  have hwritten : ("\n" ++ ticks n ++ lang ++ "\n" ++ body ++ "\n" ++ ticks n ++ "\n" ++ ['\n'] : Text) =
      '\n' :: (ticks n ++ lang ++ '\n' :: (body ++ '\n' :: (ticks n ++ ['\n', '\n']))) := by
    simp
  have hcondense : Text.condense
      ('\n' :: (ticks n ++ lang ++ '\n' :: (body ++ '\n' :: (ticks n ++ ['\n', '\n'])))) =
        '\n' :: (ticks n ++ (lang ++ '\n' :: Text.condense body ++
          '\n' :: (ticks n ++ ['\n', '\n']))) := by
    have h := condenseAfter_word (List.append_ne_nil_of_left_ne_nil hticks lang) hword [.lineFeed]
      ('\n' :: (body ++ '\n' :: (ticks n ++ ['\n', '\n'])))
    rw [condense_lines hreturn hhead hlast hticks fun c => isBlank_of_mem_ticks] at h
    refine h.trans (congrArg ('\n' :: ·) ?_)
    simp
    rfl
  rw [hpolish, hwritten, hcondense, trim_ticks hn]
  simp

end Writing

end Render

section ReadingBack

open Markdown Render

/-- The first word of the information after a fence. -/
def language (info : Text) : Text :=
  (Text.words info).headD []

/-- Whether a language is read again from a line on which it stands behind a fence. -/
def IsReadAgain (lang : Text) : Prop :=
  language (infoOf lang) = lang

/-- Whether fenced code has become fenced code in the same language with the same content, but for
line feeds at its ends. -/
structure SameCode (t t' : Token) : Prop where
  fence : t'.kind = .leaf .fence
  language : language t'.params = language t.params
  content : trimLineFeeds t'.content = trimLineFeeds t.content

theorem isBlank_of_mem_language (info : Text) : ∀ c ∈ language info, isBlank c = false := by
  unfold language
  cases hwords : Text.words info with
  | nil => simp
  | cons w ws => exact Text.isBlank_of_mem_words (hwords ▸ List.mem_cons_self)

theorem isReadAgain_of_not_mem {lang : Text} (hblank : ∀ c ∈ lang, isBlank c = false)
    (hreference : '&' ∉ lang) (hescape : '\\' ∉ lang) (hnull : '\x00' ∉ lang) :
    IsReadAgain lang := by
  rw [IsReadAgain, infoOf_eq_self hblank hreference hescape hnull, language]
  by_cases hne : lang = []
  · rw [hne]
    rfl
  · rw [Text.words_of_not_isBlank hblank hne]
    rfl

theorem linesText_splitLines (t : Text) : linesText (Text.splitLines t) = t ++ ['\n'] := by
  induction t with
  | nil => rfl
  | cons c t ih =>
    unfold Text.splitLines at ih ⊢
    rw [Text.split]
    split_ifs with hc
    · rw [linesText_cons, ih, beq_iff_eq.1 hc]
      rfl
    · cases hparts : Text.split '\n' t with
      | nil => exact absurd hparts (Text.splitLines_ne_nil t)
      | cons part parts =>
        rw [hparts, linesText_cons] at ih
        rw [linesText_cons, List.cons_append, ih, List.cons_append]

theorem infix_linesText {line : Text} {lines : List Text} (h : line ∈ lines) :
    line <:+: linesText lines := by
  obtain ⟨before, after, rfl⟩ := List.append_of_mem h
  exact ⟨linesText before, '\n' :: linesText after, by simp [linesText]⟩

/-- No line closes a fence that is longer than every run of backticks. -/
theorem closesFence_eq_false {lines : List Text} {n : Nat} (h : longestTicks 0 (linesText lines) < n)
    {line : Text} (hl : line ∈ lines) : closesFence '`' n (line.dropWhile isIndent) = false := by
  have hinfix := (List.dropWhile_suffix isIndent).isInfix.trans (infix_linesText hl)
  have hrun := (runLength_le_of_isInfix hinfix).trans_lt h
  simp [closesFence, Nat.not_le.2 hrun]

theorem render_fenceToken (info literal : Text) : (render {} [fenceToken info literal]).result =
    .ok ⟨polish {} (fenced (language info) literal []), {}⟩ := rfl

theorem linesText_splitLines_concat (t line : Text) :
    linesText (Text.splitLines t ++ [line]) = t ++ '\n' :: (line ++ ['\n']) := by
  have happend : linesText (Text.splitLines t ++ [line]) =
      linesText (Text.splitLines t) ++ (line ++ ['\n']) := by
    simp [linesText]
  rw [happend, linesText_splitLines, List.append_assoc, List.singleton_append]

theorem longestTicks_lines_condense (body : Text) :
    longestTicks 0 (linesText (Text.splitLines (Text.condense body))) = longestTicks 0 body := by
  rw [linesText_splitLines, longestTicks_newline]
  exact longestTicks_condenseAfter [] body 0

/-- Condensing adds no character that would be read as another one. -/
theorem isClean_of_mem_condense {body : Text} (hbody : ∀ c ∈ body, c ≠ '\r' ∧ c.toNat ≠ 0)
    {line : Text} (hl : line ∈ Text.splitLines (Text.condense body)) : IsClean line := by
  intro c hc
  have hn : c ≠ '\n' := fun he => Text.newline_not_mem_of_mem_splitLines hl (he ▸ hc)
  have hmem : c ∈ Text.condense body ++ ['\n'] :=
    linesText_splitLines _ ▸ (infix_linesText hl).subset hc
  have hcondense : c ∈ Text.condense body := by simpa [hn] using hmem
  have := (Text.mem_of_mem_condenseAfter hcondense hn).resolve_left List.not_mem_nil
  exact ⟨hn, hbody c this⟩

/-- Rendered fenced code is read as fenced code again, unless its language has a backtick. -/
theorem tokenize_fenced {info literal : Text} (hliteral : ∀ c ∈ literal, c ≠ '\r' ∧ c.toNat ≠ 0)
    (htick : '`' ∉ language info) :
    tokenize (polish {} (fenced (language info) literal [])) =
      [fenceToken (infoOf (language info)) (Text.condense (trimLineFeeds literal) ++ ['\n'])] := by
  have hbody : ∀ c ∈ trimLineFeeds literal, c ≠ '\r' ∧ c.toNat ≠ 0 := fun c hc =>
    hliteral c (trimLineFeeds_subset literal hc)
  have hhead := head?_trimLineFeeds literal
  have hlast := getLast?_trimLineFeeds literal
  have hfence : fenceFor (trimLineFeeds literal) =
      ticks (max 3 (longestTicks 0 (trimLineFeeds literal) + 1)) := rfl
  unfold fenced
  dsimp only
  generalize trimLineFeeds literal = body at *
  rw [hfence]
  generalize hn : max 3 (longestTicks 0 body + 1) = n
  have hlong : 3 ≤ n := by omega
  have hshort : longestTicks 0 (linesText (Text.splitLines (Text.condense body))) < n := by
    rw [longestTicks_lines_condense]
    omega
  have hlang := isBlank_of_mem_language info
  have hline : ∀ c ∈ language info, c ≠ '\n' ∧ c ≠ '\r' := fun c hc =>
    ⟨ne_of_not_isBlank (hlang c hc) rfl, ne_of_not_isBlank (hlang c hc) rfl⟩
  have hreturn : '\r' ∉ body := fun hmem => (hbody _ hmem).1 rfl
  have hpolish := polish_fenced hlong hlang hreturn hhead hlast
  rw [← linesText_splitLines_concat] at hpolish
  rw [← linesText_splitLines (Text.condense body)]
  exact (congrArg tokenize hpolish).trans (tokenize_fence ⟨hlong, htick⟩ hline
    (fun _ hl => isClean_of_mem_condense hbody hl) fun _ hl => closesFence_eq_false hshort hl)

theorem tokenize_eq_fenceToken {source info literal : Text}
    (h : (tokenize source).map (fun t => (t.kind, t.params, t.content)) =
      [(.leaf .fence, info, literal)]) : tokenize source = [fenceToken info literal] := by
  obtain ⟨t, ht, he⟩ := List.map_eq_singleton_iff.1 h
  obtain ⟨hk, rfl, rfl⟩ : t.kind = .leaf .fence ∧ t.params = info ∧ t.content = literal := by
    simpa using he
  obtain ⟨info, literal, rfl, -⟩ := exists_literal ht hk
  exact ht

/-- A source that is fenced code is rendered as fenced code, the same exactly when its language is
read again and no two blank lines stand in a row between its first line and its last. -/
theorem tokenize_render_fence {source : Text} {t : Token} (h : tokenize source = [t])
    (hk : t.kind = .leaf .fence) (htick : '`' ∉ language t.params) :
    ∃ r t', (render {} (tokenize source)).result = .ok r ∧ tokenize r.text = [t'] ∧
      t'.kind = .leaf .fence ∧ (SameCode t t' ↔
        IsReadAgain (language t.params) ∧ ¬ Text.blankLines <:+: trimLineFeeds t.content) := by
  obtain ⟨info, literal, rfl, hliteral⟩ := exists_literal h hk
  have hreturn : '\r' ∉ trimLineFeeds literal := fun hmem =>
    (hliteral _ (trimLineFeeds_subset literal hmem)).1 rfl
  have hhead := head?_condense hreturn (head?_trimLineFeeds literal)
  have htrim : trimLineFeeds (Text.condense (trimLineFeeds literal) ++ ['\n']) =
      Text.condense (trimLineFeeds literal) :=
    trimLineFeeds_append (hhead ▸ head?_trimLineFeeds literal)
      (getLast?_condense hreturn (getLast?_trimLineFeeds literal))
  have hcontent : trimLineFeeds (Text.condense (trimLineFeeds literal) ++ ['\n']) =
      trimLineFeeds literal ↔ ¬ Text.blankLines <:+: trimLineFeeds literal := by
    rw [htrim]
    exact Text.condense_eq_self_iff hreturn
  rw [h]
  refine ⟨_, _, render_fenceToken info literal, tokenize_fenced hliteral htick, rfl, ?_⟩
  exact ⟨fun hsame => ⟨hsame.language, hcontent.1 hsame.content⟩,
    fun hkept => ⟨rfl, hkept.1, hcontent.2 hkept.2⟩⟩

theorem tokenize_render_fence_tildes : ∃ r t',
    (render {} (tokenize "~~~ ruby -w\ndef f\n\n  ```\nend\n~~~")).result = .ok r ∧
      tokenize r.text = [t'] ∧
        SameCode (fenceToken "ruby -w" "def f\n\n  ```\nend\n") t' := by
  have hsource : tokenize "~~~ ruby -w\ndef f\n\n  ```\nend\n~~~" =
      [fenceToken "ruby -w" "def f\n\n  ```\nend\n"] :=
    tokenize_eq_fenceToken (by decide +kernel)
  obtain ⟨r, t', hr, ht, -, hsame⟩ := tokenize_render_fence hsource rfl (by decide)
  have hagain : IsReadAgain (language "ruby -w") :=
    isReadAgain_of_not_mem (isBlank_of_mem_language "ruby -w") (by decide) (by decide) (by decide)
  rw [fenceToken_params, fenceToken_content] at hsame
  exact ⟨r, t', hr, ht, hsame.2 ⟨hagain, by decide +kernel⟩⟩

/-- Blank lines in the middle of code are condensed like those between blocks. -/
theorem not_forall_tokenize_render_fence : ¬ ∀ (source : Text) (t : Token),
    tokenize source = [t] → t.kind = .leaf .fence →
      ∃ r t', (render {} (tokenize source)).result = .ok r ∧ tokenize r.text = [t'] ∧
        SameCode t t' := by
  intro h
  have hsource : tokenize "```\na\n\n\nb\n```" = [fenceToken [] "a\n\n\nb\n"] :=
    tokenize_eq_fenceToken (by decide +kernel)
  obtain ⟨r, t', hr, ht, hsame⟩ := h _ _ hsource rfl
  rw [hsource, render_fenceToken] at hr
  cases hr
  have hread : tokenize (polish {} (fenced (language []) "a\n\n\nb\n" [])) =
      [fenceToken [] "a\n\nb\n"] := tokenize_eq_fenceToken (by decide +kernel)
  dsimp only at ht
  rw [hread] at ht
  cases ht
  exact absurd hsame.content (by decide +kernel)

end ReadingBack

end TidyMark
