import Mathlib.Data.List.DropRight
import Mathlib.Tactic.SplitIfs
import TidyMark.CommandLine.Settings

/-!
# Targets on the command line

Targets are read twice, once to check the settings and once to build the options. Both loops are
`foldTargets`, so they stop at the same value, the first that is no label with a target behind an
equals sign (`foldTargets_of_isFirstMalformed`), and say so in the same words. Where all values are
well formed the options have the last target of each label and no others
(`mem_foldl_insertTarget`), in the order of the labels.
-/

namespace TidyMark

namespace Options

/-- Whether targets are in the order of their labels, with no label twice. -/
def IsSorted (targets : List (Text × Text)) : Prop :=
  (targets.map (·.1)).Pairwise (· < ·)

section Insertion

variable {targets : List (Text × Text)} {label url : Text} {e : Text × Text}

theorem isSorted_cons :
    IsSorted (e :: targets) ↔ (∀ e' ∈ targets, e.1 < e'.1) ∧ IsSorted targets := by
  rw [IsSorted, List.map_cons, List.pairwise_cons, List.forall_mem_map]
  rfl

theorem IsSorted.ne_of_mem (h : IsSorted (e :: targets)) : ∀ e' ∈ targets, e'.1 ≠ e.1 :=
  fun e' he' heq => List.lt_irrefl e.1 (heq ▸ (isSorted_cons.1 h).1 e' he')

/-- The target of a label takes the place of an earlier one. -/
theorem mem_insertTarget (h : IsSorted targets) :
    e ∈ insertTarget label url targets ↔ e = (label, url) ∨ e ∈ targets ∧ e.1 ≠ label := by
  induction targets with
  | nil => simp [insertTarget]
  | cons first rest ih =>
    obtain ⟨l, u⟩ := first
    obtain ⟨hlt, hrest⟩ := isSorted_cons.1 h
    rw [insertTarget]
    split_ifs with heq hless
    · obtain rfl : l = label := eq_of_beq heq
      have hne := h.ne_of_mem
      grind
    · have hbelow : ∀ e' ∈ (l, u) :: rest, label < e'.1 := List.forall_mem_cons.2
        ⟨hless, fun e' he' => List.lt_trans hless (hlt e' he')⟩
      have hne : ∀ e' ∈ (l, u) :: rest, e'.1 ≠ label := fun e' he' heq' =>
        List.lt_irrefl label (heq' ▸ hbelow e' he')
      grind
    · have hne : l ≠ label := fun he => heq (beq_iff_eq.2 he)
      rw [List.mem_cons, ih hrest]
      grind

theorem isSorted_insertTarget (h : IsSorted targets) :
    IsSorted (insertTarget label url targets) := by
  induction targets with
  | nil => exact List.pairwise_singleton _ _
  | cons first rest ih =>
    obtain ⟨l, u⟩ := first
    obtain ⟨hlt, hrest⟩ := isSorted_cons.1 h
    rw [insertTarget]
    split_ifs with heq hless
    · obtain rfl : l = label := eq_of_beq heq
      exact isSorted_cons.2 ⟨hlt, hrest⟩
    · have hbelow : ∀ e' ∈ (l, u) :: rest, label < e'.1 := List.forall_mem_cons.2
        ⟨hless, fun e' he' => List.lt_trans hless (hlt e' he')⟩
      exact isSorted_cons.2 ⟨hbelow, h⟩
    · refine isSorted_cons.2 ⟨fun e' he' => ?_, ih hrest⟩
      rcases (mem_insertTarget hrest).1 he' with rfl | ⟨he', -⟩
      · refine Decidable.of_not_not fun hnot => heq (beq_iff_eq.2 ?_)
        exact List.le_antisymm (List.not_lt.1 hless) (List.not_lt.1 hnot)
      · exact hlt e' he'

/-- Of the targets that are inserted one after the other the last of each label stays. -/
theorem mem_foldl_insertTarget (ps : List (Text × Text)) :
    IsSorted (ps.foldl (fun targets p => insertTarget p.1 p.2 targets) []) ∧
      ∀ {e}, e ∈ ps.foldl (fun targets p => insertTarget p.1 p.2 targets) [] ↔
        ∃ front back, ps = front ++ e :: back ∧ ∀ p ∈ back, p.1 ≠ e.1 := by
  induction ps using List.reverseRecOn with
  | nil => exact ⟨.nil, by simp⟩
  | append_singleton ps p ih =>
    rw [List.foldl_append, List.foldl_cons, List.foldl_nil]
    refine ⟨isSorted_insertTarget ih.1, fun {e} => ?_⟩
    rw [mem_insertTarget ih.1, ih.2]
    constructor
    · rintro (rfl | ⟨⟨front, back, rfl, hback⟩, hne⟩)
      · exact ⟨ps, [], rfl, nofun⟩
      · refine ⟨front, back ++ [p], by simp, List.forall_mem_append.2 ⟨hback, ?_⟩⟩
        exact List.forall_mem_singleton.2 (Ne.symm hne)
    · rintro ⟨front, back, hps, hback⟩
      rcases List.eq_nil_or_concat' back with rfl | ⟨back, p', rfl⟩
      · exact .inl (List.cons.inj (List.append_inj_right' hps rfl)).1.symm
      · rw [← List.cons_append, ← List.append_assoc] at hps
        obtain ⟨rfl, hp⟩ := List.append_inj' hps rfl
        obtain rfl := (List.cons.inj hp).1
        obtain ⟨hback, hne⟩ := List.forall_mem_append.1 hback
        exact .inr ⟨⟨front, back, rfl, hback⟩, (hne p List.mem_cons_self).symm⟩

end Insertion

end Options

namespace CommandLine

open Text

/-- Whether a value is no label with a target: it has no equals sign, or nothing that shows stands
on one side of the first one. -/
def IsMalformed (value : Text) : Prop :=
  '=' ∉ value ∨ ∃ before after : Text, value = before ++ '=' :: after ∧ '=' ∉ before ∧
    (before.allBlank = true ∨ after.allBlank = true)

/-- Whether a value gives a target to a label, without the white space around them. -/
def Assigns (value label url : Text) : Prop :=
  ∃ before after : Text, value = before ++ '=' :: after ∧ '=' ∉ before ∧ before.trim = label ∧
    after.trim = url

/-- Whether this is the first of the values that is malformed. -/
def IsFirstMalformed (values : List Text) (value : Text) : Prop :=
  ∃ front back, values = front ++ value :: back ∧ (∀ v ∈ front, ¬IsMalformed v) ∧ IsMalformed value

/-- Whether the last of the values that gives a target to a label gives it this one. -/
def LastAssigns (values : List Text) (label url : Text) : Prop :=
  ∃ front value back, values = front ++ value :: back ∧ Assigns value label url ∧
    ∀ v ∈ back, ∀ u, ¬Assigns v label u

/-- The two sides of the first equals sign. -/
def sides (value : Text) : Text × Text :=
  (trim (value.takeWhile (· != '=')), trim (value.dropWhile (· != '=')).tail)

/-- A loop that reads values and does something with each label and its target. -/
def foldTargets {σ : Type} (f : σ → Text × Text → σ) (st : σ) (values : List Text) :
    Except SettingsError σ :=
  values.foldlM (fun st value => do return f st (← readReflink value)) st

section Values

variable {value label url before after : Text}

theorem trim_eq_nil_iff {t : Text} : trim t = [] ↔ t.allBlank = true := by
  have hend : trim t = [] ↔ (trimStart t).allBlank = true := by
    rw [allBlank, List.all_eq_true]
    exact List.rdropWhile_eq_nil_iff
  have hstart : (trimStart t).allBlank = t.allBlank := by
    conv_rhs => rw [← List.takeWhile_append_dropWhile (p := isBlank) (l := t), allBlank_append]
    rw [allBlank, allBlank, allBlank, List.all_takeWhile, Bool.true_and]
    rfl
  rw [hend, hstart]

theorem sides_append (h : '=' ∉ before) :
    sides (before ++ '=' :: after) = (trim before, trim after) := by
  rw [sides, takeWhile_ne_append h, dropWhile_ne_append h]
  rfl

theorem assigns_iff : Assigns value label url ↔ '=' ∈ value ∧ sides value = (label, url) := by
  constructor
  · rintro ⟨before, after, rfl, hbefore, rfl, rfl⟩
    exact ⟨by simp, sides_append hbefore⟩
  · rintro ⟨hmem, hsides⟩
    obtain ⟨before, after, rfl, hbefore⟩ := List.eq_append_cons_of_mem hmem
    rw [sides_append hbefore, Prod.mk.injEq] at hsides
    exact ⟨before, after, rfl, hbefore, hsides.1, hsides.2⟩

theorem mem_of_not_isMalformed (h : ¬IsMalformed value) : '=' ∈ value :=
  not_not.1 fun hn => h (.inl hn)

theorem reflink?_append (h : '=' ∉ before) : reflink? (before ++ '=' :: after) =
    if before.trim.isEmpty || after.trim.isEmpty then none else some (before.trim, after.trim) := by
  rw [reflink?, takeWhile_ne_append h, dropWhile_ne_append h]

theorem readReflink_of_isMalformed (h : IsMalformed value) :
    readReflink value = .error (.malformedReflink value) := by
  have hnone : reflink? value = none := by
    rcases h with hn | ⟨before, after, rfl, hbefore, hblank⟩
    · have hdrop : value.dropWhile (· != '=') = [] :=
        List.dropWhile_eq_nil_iff.2 fun c hc => bne_iff_ne.2 fun he => hn (he ▸ hc)
      rw [reflink?, hdrop]
    · rw [reflink?_append hbefore, if_pos]
      rwa [Bool.or_eq_true, List.isEmpty_iff, List.isEmpty_iff, trim_eq_nil_iff, trim_eq_nil_iff]
  rw [readReflink, hnone]

theorem readReflink_of_not_isMalformed (h : ¬IsMalformed value) :
    readReflink value = .ok (sides value) := by
  obtain ⟨before, after, rfl, hbefore⟩ := List.eq_append_cons_of_mem (mem_of_not_isMalformed h)
  have hsome : reflink? (before ++ '=' :: after) = some (trim before, trim after) := by
    rw [reflink?_append hbefore, if_neg]
    rw [Bool.or_eq_true, List.isEmpty_iff, List.isEmpty_iff, trim_eq_nil_iff, trim_eq_nil_iff]
    exact fun hblank => h (.inr ⟨before, after, rfl, hbefore, hblank⟩)
  rw [readReflink, hsome, sides_append hbefore]

end Values

section Loops

variable {σ : Type} {f : σ → Text × Text → σ} {st : σ} {value : Text} {values : List Text}

theorem isFirstMalformed_cons (hv : ¬IsMalformed value) {v : Text}
    (h : IsFirstMalformed values v) : IsFirstMalformed (value :: values) v := by
  obtain ⟨front, back, rfl, hfront, hmalformed⟩ := h
  exact ⟨value :: front, back, rfl, List.forall_mem_cons.2 ⟨hv, hfront⟩, hmalformed⟩

/-- All values are well formed, or there is a first one that is not. -/
theorem wellFormed_or_exists (values : List Text) :
    (∀ v ∈ values, ¬IsMalformed v) ∨ ∃ value, IsFirstMalformed values value := by
  induction values with
  | nil => exact .inl nofun
  | cons value values ih =>
    by_cases hv : IsMalformed value
    · exact .inr ⟨value, [], values, rfl, nofun, hv⟩
    · refine ih.imp (fun h => List.forall_mem_cons.2 ⟨hv, h⟩) ?_
      rintro ⟨v, h⟩
      exact ⟨v, isFirstMalformed_cons hv h⟩

theorem foldTargets_cons (hv : ¬IsMalformed value) :
    foldTargets f st (value :: values) = foldTargets f (f st (sides value)) values := by
  rw [foldTargets, List.foldlM_cons, readReflink_of_not_isMalformed hv]
  rfl

theorem foldTargets_of_wellFormed (h : ∀ v ∈ values, ¬IsMalformed v) :
    foldTargets f st values = .ok ((values.map sides).foldl f st) := by
  induction values generalizing st with
  | nil => rfl
  | cons value values ih =>
    obtain ⟨hv, hvalues⟩ := List.forall_mem_cons.1 h
    rw [foldTargets_cons hv, ih hvalues]
    rfl

/-- A loop stops at the first malformed value, whatever it does with those before. -/
theorem foldTargets_of_isFirstMalformed (h : IsFirstMalformed values value) :
    foldTargets f st values = .error (.malformedReflink value) := by
  obtain ⟨front, back, rfl, hfront, hvalue⟩ := h
  induction front generalizing st with
  | nil =>
    rw [List.nil_append, foldTargets, List.foldlM_cons, readReflink_of_isMalformed hvalue]
    rfl
  | cons v front ih =>
    obtain ⟨hv, hfront⟩ := List.forall_mem_cons.1 hfront
    rw [List.cons_append, foldTargets_cons hv]
    exact ih hfront

theorem check_eq_foldTargets {s : Settings} (hs : s.readsStdin = true) (found : Bool) :
    s.check found = foldTargets (fun _ _ => ()) () s.reflinks := by
  rw [Settings.check, hs]
  show forM s.reflinks (fun value => do discard (readReflink value)) = _
  generalize s.reflinks = values
  induction values with
  | nil => rfl
  | cons value values ih =>
    rw [foldTargets, List.foldlM_cons, List.forM_cons, ih]
    cases readReflink value <;> rfl

theorem options_eq_foldTargets (s : Settings) : s.options =
    foldTargets (fun options p => options.withReflink p.1 p.2) s.baseOptions s.reflinks :=
  rfl

theorem reflinks_foldl (ps : List (Text × Text)) (options : Options) :
    (ps.foldl (fun options p => options.withReflink p.1 p.2) options).reflinks =
      ps.foldl (fun targets p => Options.insertTarget p.1 p.2 targets) options.reflinks := by
  induction ps generalizing options with
  | nil => rfl
  | cons p ps ih => exact ih _

/-- The last of the sides that begins with a label is what the last value gives to it. -/
theorem lastAssigns_iff (h : ∀ v ∈ values, ¬IsMalformed v) {label url : Text} :
    LastAssigns values label url ↔ ∃ front back, values.map sides = front ++ (label, url) :: back ∧
      ∀ p ∈ back, p.1 ≠ label := by
  have hassigns : ∀ v ∈ values, ∀ {l u}, Assigns v l u ↔ sides v = (l, u) := fun v hv _ _ =>
    assigns_iff.trans (and_iff_right (mem_of_not_isMalformed (h v hv)))
  constructor
  · rintro ⟨front, value, back, rfl, hvalue, hback⟩
    refine ⟨front.map sides, back.map sides, ?_, List.forall_mem_map.2 fun v hv he => ?_⟩
    · rw [List.map_append, List.map_cons, (hassigns value (by simp)).1 hvalue]
    · exact hback v hv _ ((hassigns v (by simp [hv])).2 (Prod.ext he rfl))
  · rintro ⟨front, back, hmap, hback⟩
    obtain ⟨front, rest, rfl, -, hrest⟩ := List.map_eq_append_iff.1 hmap
    obtain ⟨value, back, rfl, hvalue, rfl⟩ := List.map_eq_cons_iff.1 hrest
    refine ⟨front, value, back, rfl, (hassigns value (by simp)).2 hvalue, fun v hv u hu => ?_⟩
    have hsides := (hassigns v (by simp [hv])).1 hu
    exact hback (sides v) (List.mem_map_of_mem hv) (by rw [hsides])

end Loops

/-- Settings that read the standard input pass the check exactly if options can be built from them,
and else both fail with the same words about the first malformed target. The options have for each
label the target that the last value gives to it, and no others. -/
theorem check_eq_error_iff_options {s : Settings} (hs : s.readsStdin = true) (found : Bool) :
    (s.check found = .ok () ↔ ∃ options, s.options = .ok options) ∧
      (∀ e, s.check found = .error e ↔ s.options = .error e) ∧
      (∀ e, s.options = .error e ↔ ∃ value, IsFirstMalformed s.reflinks value ∧
        e = .malformedReflink value ∧
          e.message = "Reflink must be written as LABEL=URL: " ++ value) ∧
      ∀ options, s.options = .ok options → Options.IsSorted options.reflinks ∧
        ∀ label url, (label, url) ∈ options.reflinks ↔ LastAssigns s.reflinks label url := by
  rw [check_eq_foldTargets hs, options_eq_foldTargets]
  rcases wellFormed_or_exists s.reflinks with hwell | ⟨value, hfirst⟩
  · have hnone : ∀ value, ¬IsFirstMalformed s.reflinks value := by
      rintro value ⟨front, back, hvalues, -, hvalue⟩
      exact hwell value (by simp [hvalues]) hvalue
    rw [foldTargets_of_wellFormed hwell, foldTargets_of_wellFormed hwell]
    refine ⟨by simp, by simp, by simp [hnone], ?_⟩
    rintro options ⟨⟩
    rw [reflinks_foldl]
    obtain ⟨hsorted, hmem⟩ := Options.mem_foldl_insertTarget (s.reflinks.map sides)
    exact ⟨hsorted, fun label url => hmem.trans (lastAssigns_iff hwell).symm⟩
  · rw [foldTargets_of_isFirstMalformed hfirst, foldTargets_of_isFirstMalformed hfirst]
    refine ⟨by simp, by simp, fun e => ⟨?_, ?_⟩, nofun⟩
    · rintro ⟨⟩
      exact ⟨value, hfirst, rfl, rfl⟩
    · rintro ⟨value', hfirst', rfl, -⟩
      have hfold : foldTargets (fun _ _ => ()) () s.reflinks = .error (.malformedReflink value) :=
        foldTargets_of_isFirstMalformed hfirst
      rw [foldTargets_of_isFirstMalformed hfirst'] at hfold
      exact congrArg _ (Except.error.inj hfold).symm

/-- A later value takes the place of an earlier one that is written with other white space, and only
the first equals sign counts. -/
theorem check_eq_error_iff_options_replaced :
    let s : Settings := { reflinks := [" a =b=c", "\u2003a\t= d=e\u00A0", "B=a"] }
    s.readsStdin = true ∧ s.check false = .ok () ∧
      ∃ options, s.options = .ok options ∧
        options.reflinks = [(("B" : Text), ("a" : Text)), ("a", "d=e")] ∧
        LastAssigns s.reflinks "a" "d=e" ∧ ¬LastAssigns s.reflinks "a" "b=c" := by
  intro s
  obtain ⟨hok, -, -, htargets⟩ := check_eq_error_iff_options (s := s) rfl false
  obtain ⟨options, hoptions⟩ : ∃ options, s.options = .ok options := ⟨_, rfl⟩
  have hreflinks : options.reflinks = [(("B" : Text), ("a" : Text)), ("a", "d=e")] := by
    cases hoptions
    rfl
  have hmem := (htargets options hoptions).2
  rw [hreflinks] at hmem
  exact ⟨rfl, hok.2 ⟨options, hoptions⟩, options, hoptions, hreflinks, (hmem _ _).1 (by simp),
    fun h => absurd ((hmem _ _).2 h) (by decide)⟩

end CommandLine

end TidyMark
