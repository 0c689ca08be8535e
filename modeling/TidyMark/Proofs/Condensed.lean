import TidyMark.Proofs.FenceKept

/-!
# Texts that are condensed

A text is line breaks in a row and what stands between them (`segments`). Condensing writes each of
these rows for itself (`condense_breaks_append`), so a text stays as it is exactly when each of its
runs of breaks is one blank line (`condense_eq_self_iff_isCondensed`).

The condensed text is not always one of these. A carriage return that belongs to no break stays, and
if what stands behind it is a run, it becomes part of the first line feed that the run is written
as. Where it stands, a mixed run is left (`condensed_condense`).
-/

namespace TidyMark.Text

/-- The text of line breaks in a row. -/
def breaksText (breaks : List Break) : Text :=
  breaks.flatMap Break.text

/-- Whether a text begins with a line break. -/
def BeginsBreak (t : Text) : Prop :=
  ∃ b : Break, b.text <+: t

/-- Two or more line breaks in a row. -/
def IsRun (r : Text) : Prop :=
  ∃ breaks, 2 ≤ breaks.length ∧ r = breaksText breaks

/-- A run that is not part of a longer one, with what stands around it. -/
def IsMaximalRun (before run after : Text) : Prop :=
  IsRun run ∧ ∀ x y, x <:+ before → y <+: after → IsRun (x ++ run ++ y) → x = [] ∧ y = []

/-- Whether every run that is not part of a longer one is exactly one blank line. -/
def IsCondensed (t : Text) : Prop :=
  ∀ before run after, t = before ++ run ++ after → IsMaximalRun before run after →
    run = ['\n', '\n']

/-- Whether a carriage return that belongs to no break stands before a run. -/
def HasStray (t : Text) : Prop :=
  ∃ b : Break, '\r' :: breaksText [.returnLineFeed, b] <:+: t

/-- A text without the characters of its line breaks, and without its carriage returns. -/
def withoutBreaks (t : Text) : Text :=
  t.filter fun c => c != '\n' && c != '\r'

section Segments

variable {bs : List Break} {c : Char} {x z t : Text}

theorem breaksText_append (as bs : List Break) :
    breaksText (as ++ bs) = breaksText as ++ breaksText bs :=
  List.flatMap_append

theorem count_breaksText (bs : List Break) : (breaksText bs).count '\n' = bs.length := by
  induction bs with
  | nil => rfl
  | cons b bs ih =>
    have hb : b.text.count '\n' = 1 := by cases b <;> rfl
    rw [breaksText, List.flatMap_cons, List.count_append, hb, ← breaksText, ih, List.length_cons,
      Nat.add_comm]

theorem length_le_length_breaksText (bs : List Break) : bs.length ≤ (breaksText bs).length :=
  count_breaksText bs ▸ List.count_le_length

theorem Break.text_ne_nil (b : Break) : b.text ≠ [] := by
  cases b <;> exact List.cons_ne_nil _ _

theorem not_beginsBreak_nil : ¬ BeginsBreak [] := by
  rintro ⟨b, hb⟩
  exact b.text_ne_nil (List.prefix_nil.1 hb)

theorem BeginsBreak.mono (h : BeginsBreak z) (hz : z <+: t) : BeginsBreak t :=
  h.imp fun _ hb => hb.trans hz

theorem Break.exists_text_eq {b : Break} (h : b.text = x ++ z) (hz : z ≠ []) :
    ∃ b' : Break, b'.text = z := by
  cases b with
  | lineFeed =>
    rcases List.cons_eq_append_iff.1 h with ⟨-, rfl⟩ | ⟨x, -, hnil⟩
    · exact ⟨.lineFeed, rfl⟩
    · exact absurd (List.append_eq_nil_iff.1 hnil.symm).2 hz
  | returnLineFeed =>
    rcases List.cons_eq_append_iff.1 h with ⟨-, rfl⟩ | ⟨x, -, hfeed⟩
    · exact ⟨.returnLineFeed, rfl⟩
    · rcases List.cons_eq_append_iff.1 hfeed with ⟨-, rfl⟩ | ⟨x, -, hnil⟩
      · exact ⟨.lineFeed, rfl⟩
      · exact absurd (List.append_eq_nil_iff.1 hnil.symm).2 hz

/-- From every place in a row of breaks one begins. -/
theorem beginsBreak_of_append (h : breaksText bs = x ++ z) (hz : z ≠ []) : BeginsBreak z := by
  induction bs generalizing x with
  | nil => exact absurd (List.append_eq_nil_iff.1 h.symm).2 hz
  | cons b bs ih =>
    rw [breaksText, List.flatMap_cons, ← breaksText] at h
    rcases List.append_eq_append_iff.1 h with ⟨w, rfl, hw⟩ | ⟨w, hb, rfl⟩
    · exact ih hw
    · by_cases hw : w = []
      · exact ih (x := []) (by rw [hw, List.nil_append, List.nil_append])
      · obtain ⟨b', rfl⟩ := Break.exists_text_eq hb hw
        exact ⟨b', List.prefix_append _ _⟩

/-- What a text begins with is breaks in a row, as many as there are. -/
theorem exists_breaks (t : Text) : ∃ bs rest, t = breaksText bs ++ rest ∧ ¬ BeginsBreak rest := by
  induction ([] : List Break), t using condenseAfter.induct with
  | case1 run => exact ⟨[], [], rfl, not_beginsBreak_nil⟩
  | case2 run rest ih =>
    obtain ⟨bs, rest, rfl, hrest⟩ := ih
    exact ⟨.lineFeed :: bs, rest, rfl, hrest⟩
  | case3 run rest ih =>
    obtain ⟨bs, rest, rfl, hrest⟩ := ih
    exact ⟨.returnLineFeed :: bs, rest, rfl, hrest⟩
  | case4 run c rest hn hr ih =>
    refine ⟨[], c :: rest, rfl, ?_⟩
    rintro ⟨_ | _, w, hw⟩
    · exact hn (List.cons.inj hw).1.symm
    · exact hr w (List.cons.inj hw).1.symm (List.cons.inj hw).2.symm

/-- Induction over the breaks in a row and what stands between them. -/
@[elab_as_elim]
theorem segments {P : Text → Prop} (breaks : ∀ bs, P (breaksText bs))
    (append : ∀ bs c rest, ¬ BeginsBreak (c :: rest) → P rest → P (breaksText bs ++ c :: rest))
    (t : Text) : P t := by
  obtain ⟨bs, rest, ht, hrest⟩ := exists_breaks t
  rcases rest with _ | ⟨c, rest⟩
  · rw [ht, List.append_nil]
    exact breaks bs
  · have hshorter : rest.length < t.length := by
      rw [ht, List.length_append, List.length_cons]
      omega
    rw [ht]
    exact append bs c rest hrest (segments breaks append rest)
termination_by t.length

end Segments

section Rows

variable {bs : List Break} {c : Char} {rest t u v z r : Text}

theorem condenseAfter_breaks_append (bs run : List Break) (t : Text) :
    condenseAfter run (breaksText bs ++ t) = condenseAfter (bs.reverse ++ run) t := by
  induction bs generalizing run with
  | nil => rfl
  | cons b bs ih =>
    rw [List.reverse_cons, List.append_assoc, List.singleton_append, ← ih]
    cases b <;> rfl

theorem condenseRun_of_lt_two (h : bs.length < 2) : condenseRun bs = breaksText bs := by
  rcases bs with _ | ⟨b, _ | ⟨d, bs⟩⟩
  · rfl
  · exact (List.append_nil b.text).symm
  · simp only [List.length_cons] at h
    omega

theorem condenseRun_eq_breaksText_iff :
    condenseRun bs = breaksText bs ↔ (2 ≤ bs.length → breaksText bs = ['\n', '\n']) := by
  rcases Nat.lt_or_ge bs.length 2 with h | h
  · exact iff_of_true (condenseRun_of_lt_two h) (absurd · (Nat.not_le_of_lt h))
  · rw [Render.condenseRun_of_two_le h, eq_comm]
    exact ⟨fun heq _ => heq, fun heq => heq h⟩

theorem condenseRun_reverse (bs : List Break) : condenseRun bs.reverse = condenseRun bs := by
  rcases Nat.lt_or_ge bs.length 2 with h | h
  · rcases bs with _ | ⟨b, _ | ⟨d, bs⟩⟩
    · rfl
    · rfl
    · simp only [List.length_cons] at h
      omega
  · rw [Render.condenseRun_of_two_le h, Render.condenseRun_of_two_le (bs.length_reverse.symm ▸ h)]

theorem condense_breaks (bs : List Break) : condense (breaksText bs) = condenseRun bs := by
  have h := condenseAfter_breaks_append bs [] []
  rwa [List.append_nil, List.append_nil, condenseAfter, condenseRun_reverse] at h

theorem condense_breaks_append (h : ¬ BeginsBreak (c :: rest)) :
    condense (breaksText bs ++ c :: rest) = condenseRun bs ++ c :: condense rest := by
  have hn : c ≠ '\n' := by
    rintro rfl
    exact h ⟨.lineFeed, rest, rfl⟩
  have hr : c = '\r' → rest.head? ≠ some '\n' := by
    rintro rfl hhead
    obtain ⟨w, rfl⟩ := List.head?_eq_some_iff.1 hhead
    exact h ⟨.returnLineFeed, w, rfl⟩
  rw [condense, condenseAfter_breaks_append, List.append_nil, Render.condenseAfter_of_ne hn _ hr,
    condenseRun_reverse, ← condense]

theorem length_condense_le (t : Text) : (condense t).length ≤ t.length := by
  have h := length_condenseAfter_le [] t
  rwa [condenseRun, List.length_nil, Nat.zero_add] at h

/-- A text is left as it is if each of its rows is. -/
theorem condense_breaks_append_eq_self_iff (h : ¬ BeginsBreak (c :: rest)) :
    condense (breaksText bs ++ c :: rest) = breaksText bs ++ c :: rest ↔
      condenseRun bs = breaksText bs ∧ condense rest = rest := by
  rw [condense_breaks_append h]
  constructor
  · intro heq
    have hlength := congrArg List.length heq
    have hrow := length_condense_le (breaksText bs)
    have hrest := length_condense_le rest
    rw [condense_breaks] at hrow
    simp only [List.length_append, List.length_cons] at hlength
    obtain ⟨hrow, hrest⟩ := List.append_inj heq (by omega)
    exact ⟨hrow, (List.cons.inj hrest).2⟩
  · rintro ⟨hrow, hrest⟩
    rw [hrow, hrest]

/-- Where a text that stays as it is begins with a run, the run is one blank line. -/
theorem eq_of_condense_eq_self (h : condense (breaksText bs ++ t) = breaksText bs ++ t)
    (hbs : 2 ≤ bs.length) : breaksText bs = ['\n', '\n'] := by
  have hlength := length_condenseAfter_le bs.reverse t
  rw [condense, condenseAfter_breaks_append, List.append_nil] at h
  rw [h, condenseRun_reverse, Render.condenseRun_of_two_le hbs, List.length_append] at hlength
  have hcount := count_breaksText bs
  have hle : (breaksText bs).count '\n' ≤ (breaksText bs).length := List.count_le_length
  simp only [List.length_cons, List.length_nil] at hlength
  have heq : (breaksText bs).count '\n' = (breaksText bs).length := by omega
  refine (List.eq_replicate_iff (n := 2)).2 ⟨by omega, fun b hb => ?_⟩
  exact (List.count_eq_length.1 heq b hb).symm

end Rows

section Runs

variable {bs : List Break} {c : Char} {rest t u v z r s : Text}

/-- What does not begin with a break begins behind a row of them. -/
theorem exists_of_breaks_append_eq (h : breaksText bs ++ z = u ++ s) (hs : ¬ BeginsBreak s) :
    ∃ w, u = breaksText bs ++ w ∧ z = w ++ s := by
  rcases List.append_eq_append_iff.1 h with ⟨w, hu, hz⟩ | ⟨w, hbs, rfl⟩
  · exact ⟨w, hu, hz⟩
  · by_cases hw : w = []
    · subst hw
      exact ⟨[], by rw [hbs, List.append_nil, List.append_nil], rfl⟩
    · exact absurd ((beginsBreak_of_append hbs hw).mono (List.prefix_append w z)) hs

theorem IsRun.ne_nil (h : IsRun r) : r ≠ [] := by
  obtain ⟨bs, hbs, rfl⟩ := h
  have := length_le_length_breaksText bs
  exact List.ne_nil_of_length_pos (by omega)

theorem IsRun.beginsBreak (h : IsRun r) : BeginsBreak r := by
  have hne := h.ne_nil
  obtain ⟨bs, hbs, rfl⟩ := h
  exact beginsBreak_of_append (List.nil_append _).symm hne

/-- A row of two breaks or more is a run that is not part of a longer one. -/
theorem isMaximalRun_breaks (hbs : 2 ≤ bs.length) (hz : ¬ BeginsBreak z) :
    IsMaximalRun [] (breaksText bs) z := by
  refine ⟨⟨bs, hbs, rfl⟩, ?_⟩
  rintro x y hx hy ⟨bs', -, hrow⟩
  obtain rfl := List.suffix_nil.1 hx
  refine ⟨rfl, ?_⟩
  by_contra hne
  exact hz ((beginsBreak_of_append hrow.symm hne).mono hy)

/-- A run that begins in a row of breaks and is not part of a longer one is that row. -/
theorem IsMaximalRun.eq_breaks (h : IsMaximalRun u r v) (hz : ¬ BeginsBreak z)
    (ht : breaksText bs ++ z = u ++ r ++ v) (hu : u.length < (breaksText bs).length) :
    2 ≤ bs.length ∧ r = breaksText bs := by
  obtain ⟨⟨bs', hbs', hr⟩, hmax⟩ := h
  -- The run ends in the row, since what stands behind the row does not begin with a break.
  obtain ⟨y, hrow, rfl⟩ : ∃ y, breaksText bs = u ++ r ++ y ∧ v = y ++ z := by
    rcases List.append_eq_append_iff.1 ht with ⟨w, hw, hwv⟩ | ⟨y, hrow, hv⟩
    · rcases List.append_eq_append_iff.1 hw.symm with ⟨x, hx, -⟩ | ⟨x, hx, hxw⟩
      · rw [hx, List.length_append] at hu
        omega
      · have hnil : w = [] := by
          by_contra hne
          rw [hr] at hxw
          exact hz ((beginsBreak_of_append hxw hne).mono (hwv ▸ List.prefix_append w v))
        rw [hnil, List.append_nil] at hw
        rw [hnil, List.nil_append] at hwv
        exact ⟨[], by rw [hw, List.append_nil], hwv.symm⟩
    · exact ⟨y, hrow, hv⟩
  have hbs : 2 ≤ bs.length := by
    rw [← count_breaksText, hrow, List.count_append, List.count_append, hr, count_breaksText]
    omega
  obtain ⟨rfl, rfl⟩ := hmax u y List.suffix_rfl (List.prefix_append y z) ⟨bs, hbs, hrow.symm⟩
  exact ⟨hbs, by simpa using hrow.symm⟩

theorem isCondensed_breaks_iff : IsCondensed (breaksText bs) ↔ condenseRun bs = breaksText bs := by
  rw [condenseRun_eq_breaksText_iff]
  constructor
  · exact fun h hbs => h [] _ [] (List.append_nil _).symm
      (isMaximalRun_breaks hbs not_beginsBreak_nil)
  · intro h u r v ht hmax
    have hpos := List.length_pos_of_ne_nil hmax.1.ne_nil
    have hlength := congrArg List.length ht
    rw [List.length_append, List.length_append] at hlength
    obtain ⟨hbs, rfl⟩ := hmax.eq_breaks not_beginsBreak_nil (by rwa [List.append_nil]) (by omega)
    exact h hbs

/-- A text is condensed if each of its rows is. -/
theorem isCondensed_breaks_append_iff (hc : ¬ BeginsBreak (c :: rest)) :
    IsCondensed (breaksText bs ++ c :: rest) ↔ condenseRun bs = breaksText bs ∧ IsCondensed rest := by
  rw [condenseRun_eq_breaksText_iff]
  constructor
  · intro h
    refine ⟨fun hbs => h [] _ _ rfl (isMaximalRun_breaks hbs hc), ?_⟩
    rintro u r v rfl ⟨hr, hmax⟩
    refine h (breaksText bs ++ c :: u) r v (by simp) ⟨hr, fun x y hx hy hrun => ?_⟩
    have hinner : x <:+ u ∨ c :: u <:+ x := by
      rcases List.suffix_or_suffix_of_suffix hx (List.suffix_append _ (c :: u)) with h | h
      · exact (List.suffix_cons_iff.1 h).elim (fun h => .inr (h ▸ List.suffix_rfl)) .inl
      · exact .inr h
    rcases hinner with hinner | ⟨x', rfl⟩
    · exact hmax x y hinner hy hrun
    · obtain ⟨bs', -, hrow⟩ := hrun
      have hrow : breaksText bs' = x' ++ c :: (u ++ r ++ y) := by simpa using hrow.symm
      have hbreak := beginsBreak_of_append hrow (List.cons_ne_nil _ _)
      refine absurd (hbreak.mono ?_) hc
      exact List.cons_prefix_cons.2 ⟨rfl, (List.prefix_append_right_inj (u ++ r)).2 hy⟩
  · rintro ⟨hrow, hrest⟩ u r v ht hmax
    by_cases hu : u.length < (breaksText bs).length
    · obtain ⟨hbs, rfl⟩ := hmax.eq_breaks hc ht hu
      exact hrow hbs
    · rw [List.append_assoc] at ht
      obtain ⟨w, rfl⟩ : breaksText bs <+: u :=
        List.prefix_of_prefix_length_le ⟨c :: rest, ht⟩ (List.prefix_append u _) (by omega)
      have hw : c :: rest = w ++ (r ++ v) := by simpa using ht
      rcases w with _ | ⟨d, w⟩
      · have hbreak := hmax.1.beginsBreak.mono (List.prefix_append r v)
        exact absurd (hw ▸ hbreak) hc
      · obtain ⟨rfl, rfl⟩ := List.cons.inj hw
        refine hrest w r v (List.append_assoc w r v).symm ⟨hmax.1, fun x y hx hy => ?_⟩
        exact hmax.2 x y (hx.trans ((List.suffix_cons c w).trans (List.suffix_append _ _))) hy

theorem condense_eq_self_iff_isCondensed (t : Text) : condense t = t ↔ IsCondensed t := by
  induction t using segments with
  | breaks bs => rw [condense_breaks, isCondensed_breaks_iff]
  | append bs c rest hc ih =>
    rw [condense_breaks_append_eq_self_iff hc, isCondensed_breaks_append_iff hc, ih]

end Runs

section Strays

variable {b : Break} {bs : List Break} {c : Char} {rest t v : Text}

theorem not_beginsBreak_stray :
    ¬ BeginsBreak ('\r' :: breaksText [.returnLineFeed, b] ++ v) := by
  rintro ⟨_ | _, w, hw⟩
  · exact absurd (List.cons.inj hw).1 (by decide)
  · exact absurd (List.cons.inj (List.cons.inj hw).2).1 (by decide)

/-- What a row is written as is a row again, and stays as it is. -/
theorem exists_condenseRun_eq (bs : List Break) :
    ∃ bs', condenseRun bs = breaksText bs' ∧ condenseRun bs' = breaksText bs' := by
  rcases Nat.lt_or_ge bs.length 2 with h | h
  · exact ⟨bs, condenseRun_of_lt_two h, condenseRun_of_lt_two h⟩
  · exact ⟨[.lineFeed, .lineFeed], Render.condenseRun_of_two_le h, rfl⟩

theorem exists_condense_run_append (h : 2 ≤ bs.length) (t : Text) :
    ∃ w, condense (breaksText bs ++ t) = '\n' :: '\n' :: w := by
  obtain ⟨breaks, w, -, hw⟩ := Render.exists_condenseAfter_breaks t
  refine ⟨w, ?_⟩
  rw [condense, condenseAfter_breaks_append, hw, Render.condenseRun_of_two_le]
  · rfl
  · simp only [List.length_append, List.length_reverse]
    omega

theorem head?_condense_of_lt_two (hbs : bs.length < 2) (hrest : ¬ BeginsBreak rest) :
    (condense (breaksText bs ++ rest)).head? = (breaksText bs ++ rest).head? := by
  rcases rest with _ | ⟨c, rest⟩
  · rw [List.append_nil, condense_breaks, condenseRun_of_lt_two hbs]
  · rw [condense_breaks_append hrest, condenseRun_of_lt_two hbs, List.head?_append,
      List.head?_append, List.head?_cons, List.head?_cons]

/-- A break that was none before is made of a carriage return and of what a run is written as. -/
theorem beginsBreak_condense_iff (hc : ¬ BeginsBreak (c :: rest)) :
    BeginsBreak (c :: condense rest) ↔
      c = '\r' ∧ ∃ b : Break, breaksText [.returnLineFeed, b] <+: rest := by
  constructor
  · rintro ⟨_ | _, w, hw⟩
    · obtain rfl := (List.cons.inj hw).1
      exact absurd ⟨.lineFeed, rest, rfl⟩ hc
    · obtain ⟨rfl, hcondense⟩ := List.cons.inj hw
      have hhead : rest.head? ≠ some '\n' := fun hhead => by
        obtain ⟨v, rfl⟩ := List.head?_eq_some_iff.1 hhead
        exact hc ⟨.returnLineFeed, v, rfl⟩
      refine ⟨rfl, ?_⟩
      obtain ⟨bs, v, rfl, hv⟩ := exists_breaks rest
      rcases Nat.lt_or_ge bs.length 2 with hbs | hbs
      · rw [← head?_condense_of_lt_two hbs hv, ← hcondense] at hhead
        exact absurd rfl hhead
      · rcases bs with _ | ⟨_ | _, _ | ⟨b, bs⟩⟩
        · exact absurd hbs (by decide)
        · exact absurd hbs (by simp)
        · exact absurd rfl hhead
        · exact absurd hbs (by simp)
        · exact ⟨b, breaksText bs ++ v, by simp [breaksText]⟩
  · rintro ⟨rfl, b, v, rfl⟩
    obtain ⟨w, hw⟩ := @exists_condense_run_append [.returnLineFeed, b] (Nat.le_refl 2) v
    exact ⟨.returnLineFeed, '\n' :: w, by rw [hw]; rfl⟩

theorem hasStray_breaks_append_iff (hc : ¬ BeginsBreak (c :: rest))
    (hbreak : ¬ BeginsBreak (c :: condense rest)) :
    HasStray (breaksText bs ++ c :: rest) ↔ HasStray rest := by
  constructor
  · rintro ⟨b, u, v, h⟩
    rw [List.append_assoc] at h
    obtain ⟨w, rfl, hw⟩ := exists_of_breaks_append_eq h.symm not_beginsBreak_stray
    rcases w with _ | ⟨d, w⟩
    · obtain ⟨rfl, rfl⟩ := List.cons.inj hw
      exact absurd ((beginsBreak_condense_iff hc).2 ⟨rfl, b, List.prefix_append _ v⟩) hbreak
    · obtain ⟨rfl, rfl⟩ := List.cons.inj hw
      exact ⟨b, w, v, List.append_assoc _ _ _⟩
  · rintro ⟨b, h⟩
    exact ⟨b, h.trans ((List.suffix_cons c rest).trans (List.suffix_append _ _)).isInfix⟩

theorem condense_condense_iff (t : Text) : condense (condense t) = condense t ↔ ¬ HasStray t := by
  induction t using segments with
  | breaks bs =>
    obtain ⟨bs', hrun, hrow⟩ := exists_condenseRun_eq bs
    rw [condense_breaks, hrun, condense_breaks, hrow]
    refine iff_of_true rfl ?_
    rintro ⟨b, u, v, h⟩
    rw [List.append_assoc] at h
    exact not_beginsBreak_stray (beginsBreak_of_append h.symm (List.cons_ne_nil _ _))
  | append bs c rest hc ih =>
    obtain ⟨bs', hrun, hrow⟩ := exists_condenseRun_eq bs
    rw [condense_breaks_append hc, hrun]
    by_cases hbreak : BeginsBreak (c :: condense rest)
    · -- The carriage return before the run becomes part of what the run is written as.
      obtain ⟨rfl, b, v, rfl⟩ := (beginsBreak_condense_iff hc).1 hbreak
      have hstray : HasStray (breaksText bs ++ '\r' :: (breaksText [.returnLineFeed, b] ++ v)) :=
        ⟨b, breaksText bs, v, List.append_assoc _ _ _⟩
      refine iff_of_false (fun h => ?_) (not_not_intro hstray)
      obtain ⟨w, hw⟩ := @exists_condense_run_append [.returnLineFeed, b] (Nat.le_refl 2) v
      have hmixed : breaksText bs' ++ '\r' :: condense (breaksText [.returnLineFeed, b] ++ v) =
          breaksText (bs' ++ [.returnLineFeed, .lineFeed]) ++ w := by
        rw [hw, breaksText_append, List.append_assoc]
        rfl
      rw [hmixed] at h
      have hblank := eq_of_condense_eq_self h (by simp)
      have hreturn : '\r' ∈ breaksText (bs' ++ [.returnLineFeed, .lineFeed]) := by
        rw [breaksText_append]
        exact List.mem_append_right _ List.mem_cons_self
      rw [hblank] at hreturn
      exact absurd hreturn (by decide)
    · rw [condense_breaks_append_eq_self_iff hbreak, and_iff_right hrow, ih,
        hasStray_breaks_append_iff hc hbreak]

end Strays

theorem withoutBreaks_condenseRun : ∀ run : List Break, withoutBreaks (condenseRun run) = []
  | [] => rfl
  | [.lineFeed] => rfl
  | [.returnLineFeed] => rfl
  | _ :: _ :: _ => rfl

theorem withoutBreaks_condenseAfter (run : List Break) (t : Text) :
    withoutBreaks (condenseAfter run t) = withoutBreaks t := by
  fun_induction condenseAfter run t with
  | case1 run => exact withoutBreaks_condenseRun run
  | case2 run rest ih => exact ih
  | case3 run rest ih => exact ih
  | case4 run c rest hn hr ih =>
    have hrun := withoutBreaks_condenseRun run
    unfold withoutBreaks at ih hrun ⊢
    rw [List.filter_append, hrun, List.nil_append, List.filter_cons, List.filter_cons, ih]

/-- Condensing loses nothing but breaks. What it leaves is condensed, and stays as it is when it is
condensed again, exactly when no carriage return stands alone before a run. -/
theorem condensed_condense (t : Text) :
    withoutBreaks (condense t) = withoutBreaks t ∧
      (IsCondensed (condense t) ↔ ¬ HasStray t) ∧
      (condense (condense t) = condense t ↔ ¬ HasStray t) :=
  ⟨withoutBreaks_condenseAfter [] t,
    (condense_eq_self_iff_isCondensed (condense t)).symm.trans (condense_condense_iff t),
    condense_condense_iff t⟩

/-- Of a carriage return alone, before a run of both kinds of break, a mixed run is left. -/
theorem not_forall_isCondensed_condense : ¬ ∀ t, withoutBreaks (condense t) = withoutBreaks t ∧
    IsCondensed (condense t) ∧ condense (condense t) = condense t := by
  intro h
  obtain ⟨-, -, htwice⟩ := h "a\r\r\n\nb"
  revert htwice
  decide +kernel

end TidyMark.Text
