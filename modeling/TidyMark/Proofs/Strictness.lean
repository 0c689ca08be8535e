import TidyMark.Proofs.Plan
import TidyMark.Proofs.Visits

/-!
# What strictness changes

No rule asks whether a rendering is strict (`rule_withStrict`). A strict walk therefore goes as any
other up to the first token of an unknown kind that it visits, and stops there (`filters_walk`): a
strict rendering either fails with the name of that kind or is the rendering that is not strict
(`render_strict`).
-/

namespace TidyMark.Render

/-- The name of a kind outside the vocabulary. -/
def unknownName? : Kind → Option Text
  | .unknown name => some name
  | _ => none

/-- The name of the first unknown kind, in the order of the document, that tokens behind `before`
or those in them have. -/
def firstUnknown? (before tokens : List Token) : Option Text :=
  (visits before tokens).findSome? fun v => unknownName? v.token.kind

def Setting.withStrict (strict : Bool) (setting : Setting) : Setting :=
  { setting with options := { setting.options with strict } }

section Visiting

variable {before after : List Token} {t : Token}

theorem unknownName?_eq_some_iff {k : Kind} {name : Text} :
    unknownName? k = some name ↔ k = .unknown name := by
  cases k <;> simp [unknownName?]

theorem unknownName?_eq_none {k : Kind} (h : ∀ name, k ≠ .unknown name) : unknownName? k = none :=
  Option.eq_none_iff_forall_ne_some.2 fun name hn => h name (unknownName?_eq_some_iff.1 hn)

theorem firstUnknown?_cons_leaf (ht : t.kind ≠ .leaf .inline) : firstUnknown? before (t :: after) =
    (unknownName? t.kind).or (firstUnknown? (t :: before) after) := by
  rw [firstUnknown?, visits_cons_leaf ht, List.findSome?_cons]
  cases unknownName? t.kind <;> rfl

theorem firstUnknown?_cons_inline (ht : t.kind = .leaf .inline) :
    firstUnknown? before (t :: after) =
      (firstUnknown? [] t.children).or (firstUnknown? (t :: before) after) := by
  rw [firstUnknown?, visits_cons_inline ht, List.findSome?_cons, ht, List.findSome?_append]
  rfl

/-- All kinds are known if those of the tokens are and those of the children. -/
theorem firstUnknown?_eq_none : ∀ {tokens before : List Token},
    (∀ t ∈ tokens, ∀ name, t.kind ≠ .unknown name) →
      (∀ t ∈ tokens, t.kind = .leaf .inline → firstUnknown? [] t.children = none) →
        firstUnknown? before tokens = none
  | [], _, _, _ => by rw [firstUnknown?, visits_nil, List.findSome?_nil]
  | t :: tokens, before, hknown, hchildren => by
    obtain ⟨ht, htokens⟩ := List.forall_mem_cons.1 hknown
    obtain ⟨hinner, hrest⟩ := List.forall_mem_cons.1 hchildren
    by_cases hinline : t.kind = .leaf .inline
    · rw [firstUnknown?_cons_inline hinline, hinner hinline, Option.none_or,
        firstUnknown?_eq_none htokens hrest]
    · rw [firstUnknown?_cons_leaf hinline, unknownName?_eq_none ht, Option.none_or,
        firstUnknown?_eq_none htokens hrest]

end Visiting

section Walks

variable (setting : Setting) {before after : List Token} {t : Token}

theorem rule_withStrict (strict : Bool) (state : State) (s : Sight) :
    rule (setting.withStrict strict) state s = rule setting state s := rfl

/-- What a strict walk is beside one that is not, when `unknown` is the first unknown kind. -/
def Filters (unknown : Option Text) (strict lenient : Walk) : Prop :=
  match unknown with
  | none => strict = lenient
  | some name => strict.stopped = some name

/-- A step at a known token is the same in both modes. -/
theorem step_withStrict (ht : t.kind ≠ .leaf .inline) (hk : unknownName? t.kind = none)
    (strict : Bool) (state : State) (before after : List Token) (openLinks : Nat) (takes : Bool) :
    step (setting.withStrict strict) state before after openLinks takes t =
      ⟨(rule setting state ⟨before, settle takes t after, after, openLinks⟩).1,
        settle takes t after,
        (rule setting state ⟨before, settle takes t after, after, openLinks⟩).2, none⟩ := by
  rcases step_cases (setting.withStrict strict) state before after openLinks takes ht with
    ⟨name, hname, -, -⟩ | ⟨-, hstep⟩
  · rw [unknownName?_eq_some_iff.2 hname] at hk
    cases hk
  · rwa [rule_withStrict] at hstep

theorem step_strict_unknown {name : Text} (hk : t.kind = .unknown name) (state : State)
    (before after : List Token) (openLinks : Nat) (takes : Bool) :
    step (setting.withStrict true) state before after openLinks takes t =
      ⟨state, settle takes t after, [], some name⟩ := by
  have ht : t.kind ≠ .leaf .inline := by simp [hk]
  rcases step_cases (setting.withStrict true) state before after openLinks takes ht with
    ⟨name', hname, -, hstep⟩ | ⟨hlenient, -⟩
  · rw [hk] at hname
    cases hname
    exact hstep
  · cases hlenient name hk

/-- Where both walks take the same step, what is said of the rest holds of the whole. -/
theorem filters_cons {state state' : State} {openLinks : Nat} {takes : Bool} {t' : Token}
    {written : Text} {unknown : Option Text}
    (hstep : ∀ strict, step (setting.withStrict strict) state before after openLinks takes t =
      ⟨state', t', written, none⟩)
    (hrest : Filters unknown
      (walk (setting.withStrict true) state' (t' :: before) (linksAfter openLinks t'.kind)
        (takesFragment openLinks t'.kind) after)
      (walk (setting.withStrict false) state' (t' :: before) (linksAfter openLinks t'.kind)
        (takesFragment openLinks t'.kind) after)) :
    Filters unknown (walk (setting.withStrict true) state before openLinks takes (t :: after))
      (walk (setting.withStrict false) state before openLinks takes (t :: after)) := by
  rw [walk_cons (hstep true) rfl, walk_cons (hstep false) rfl]
  cases unknown with
  | some name => exact hrest
  | none =>
    unfold Filters at hrest ⊢
    dsimp only at hrest ⊢
    rw [hrest]

/-- A strict walk stops at the first unknown kind that it visits, and else it is the walk that is
not strict. -/
theorem filters_walk (tokens : List Token) : ∀ (visited : List Token) (state : State)
    (before : List Token) (openLinks : Nat) (takes : Bool),
      Filters (firstUnknown? visited tokens)
        (walk (setting.withStrict true) state before openLinks takes tokens)
        (walk (setting.withStrict false) state before openLinks takes tokens) := by
  induction tokens using walk_induction with
  | nil =>
    intro visited state before openLinks takes
    rw [walk_nil, walk_nil, firstUnknown?, visits_nil]
    rfl
  | leaf t after ht ih =>
    intro visited state before openLinks takes
    rw [firstUnknown?_cons_leaf ht]
    cases hk : unknownName? t.kind with
    | some name =>
      have hstep := step_strict_unknown setting (unknownName?_eq_some_iff.1 hk) state before after
        openLinks takes
      rw [walk_cons_of_stopped hstep]
      rfl
    | none =>
      have hstep := fun strict =>
        step_withStrict setting ht hk strict state before after openLinks takes
      exact filters_cons setting hstep (ih _ _ _ _ _)
  | inline t after ht hchildren ih =>
    intro visited state before openLinks takes
    have hinner := hchildren [] state [] 0 false
    rw [firstUnknown?_cons_inline ht]
    cases hfirst : firstUnknown? [] t.children with
    | some name =>
      rw [hfirst] at hinner
      have hstop : (walk (setting.withStrict true) state [] 0 false t.children).stopped =
        some name := hinner
      rw [walk_cons_inline_of_stopped ht rfl hstop]
      rfl
    | none =>
      rw [hfirst] at hinner
      obtain ⟨w, hw⟩ : ∃ w, walk (setting.withStrict false) state [] 0 false t.children = w :=
        ⟨_, rfl⟩
      have hsame : ∀ strict, walk (setting.withStrict strict) state [] 0 false t.children = w :=
        Bool.forall_bool.2 ⟨hw, Eq.trans hinner hw⟩
      have hstop : w.stopped = none := hw ▸ stopped_walk rfl _ _ _ _ _
      have hstep := fun strict =>
        @step_inline _ state before after openLinks takes t ht w (hsame strict)
      rw [hstop] at hstep
      exact filters_cons setting hstep (ih _ _ _ _ _)

/-- A walk over kinds that are known does not stop, strict or not. -/
theorem stopped_walkAll {tokens : List Token} (h : firstUnknown? [] tokens = none) :
    (walkAll setting tokens).stopped = none := by
  have hlenient : (walkAll (setting.withStrict false) tokens).stopped = none :=
    stopped_walk rfl _ _ _ _ _
  rcases hs : setting.options.strict with _ | _
  · exact stopped_walk hs _ _ _ _ _
  · have hfilters : Filters (firstUnknown? [] tokens) (walkAll (setting.withStrict true) tokens)
        (walkAll (setting.withStrict false) tokens) :=
      filters_walk setting tokens [] {} [] 0 false
    have hsame : setting.withStrict true = setting := by
      rw [← hs]
      rfl
    rw [h, Filters, hsame] at hfilters
    exact (congrArg Walk.stopped hfilters).trans hlenient

end Walks

section Nested

/-- Turns that are balanced leave nothing open. -/
theorem foldlM_of_isBalanced : ∀ (turns : List Turn) (frames : List FrameKind),
    isBalanced frames turns = true → turns.foldlM turn? frames = some []
  | [], [], _ => rfl
  | .opens k :: turns, frames, h => foldlM_of_isBalanced turns (k :: frames) h
  | .closes k :: turns, k' :: frames, h => by
    rw [isBalanced, Bool.and_eq_true, beq_iff_eq] at h
    rw [List.foldlM_cons, turn?, if_pos h.1]
    exact foldlM_of_isBalanced turns frames h.2

theorem isNested_of_isBalanced {turns : List Turn} (h : isBalanced [] turns = true) :
    isNested turns = true := by
  rw [isNested, foldlM_of_isBalanced turns [] h]
  rfl

/-- A walk whose frames can be drawn comes to a rendering unless it has stopped. -/
theorem conclude_eq {options : Options} {w : Walk} (h : conclude options w ≠ .error .splitCharacter) :
    match w.stopped with
    | some name => conclude options w = .error (.unknownKind name)
    | none => ∃ r, conclude options w = .ok r := by
  unfold conclude at h ⊢
  cases hdraw : draw? w.pieces with
  | none => exact absurd (by rw [hdraw]) h
  | some canvas =>
    cases hstop : w.stopped with
    | some name => rfl
    | none =>
      rw [hdraw, hstop] at h
      dsimp only at h ⊢
      cases hfinish : canvas.finish? with
      | none => exact absurd (by rw [hfinish]) h
      | some out => exact ⟨_, rfl⟩

end Nested

/-- A stream whose quotes and items are nested and closed is rendered unless it is rendered
strictly. A strict rendering fails with the name of the first unknown kind in the order of the
document, and without one it is the rendering that is not strict. -/
theorem render_strict {tokens : List Token} (h : isBalanced [] (frameTurns tokens) = true)
    (options : Options) :
    (∃ r, (render { options with strict := false } tokens).result = .ok r) ∧
      match firstUnknown? [] tokens with
      | some name =>
        (render { options with strict := true } tokens).result = .error (.unknownKind name)
      | none => render { options with strict := true } tokens =
          render { options with strict := false } tokens := by
  have hdrawn : ∀ strict, conclude { options with strict }
      (walkAll (.ofOptions { options with strict }) tokens) ≠ .error .splitCharacter :=
    fun strict => render_ne_splitCharacter (isNested_of_isBalanced h) _
  have hlenient : (walkAll (.ofOptions { options with strict := false }) tokens).stopped = none :=
    stopped_walk rfl _ _ _ _ _
  have hfilters : Filters (firstUnknown? [] tokens)
      (walkAll (.ofOptions { options with strict := true }) tokens)
      (walkAll (.ofOptions { options with strict := false }) tokens) :=
    filters_walk (.ofOptions options) tokens [] {} [] 0 false
  constructor
  · have hok := conclude_eq (hdrawn false)
    rwa [hlenient] at hok
  · cases hfirst : firstUnknown? [] tokens with
    | some name =>
      rw [hfirst] at hfilters
      have hstop : (walkAll (.ofOptions { options with strict := true }) tokens).stopped =
        some name := hfilters
      have herror := conclude_eq (hdrawn true)
      rwa [hstop] at herror
    | none =>
      rw [hfirst] at hfilters
      have hsame : walkAll (.ofOptions { options with strict := true }) tokens =
        walkAll (.ofOptions { options with strict := false }) tokens := hfilters
      unfold render
      dsimp only
      rw [hsame]
      rfl

theorem render_strict_unknown_in_quote :
    let tokens : List Token := [{ kind := .opening .listItem }, { kind := .opening .blockquote },
      Token.inline [tag "a", { kind := .unknown "math" }, { kind := .unknown "plot" }],
      { kind := .closing .blockquote }, { kind := .closing .listItem }]
    isBalanced [] (frameTurns tokens) = true ∧
      (∃ r, (render { strict := false } tokens).result = .ok r) ∧
      (render { strict := true } tokens).result = .error (.unknownKind "math") := by
  intro tokens
  have hbalanced : isBalanced [] (frameTurns tokens) = true := rfl
  obtain ⟨hlenient, hstrict⟩ := render_strict hbalanced {}
  have hfirst : firstUnknown? [] tokens = some "math".toList := rfl
  rw [hfirst] at hstrict
  exact ⟨hbalanced, hlenient, hstrict⟩

end TidyMark.Render
