import TidyMark.Proofs.InlineKinds
import TidyMark.Proofs.Walk

/-!
# Inline content by itself

What inline content comes to depends on little of what has been rendered before it: on the part of
a table that it stands in, on the strong run and on the links that are open (`Alike`). Where none is
open it is written as it is alone, and it leaves the lists as they are and nothing open behind it
(`walk_ofInlines`). What it opens it also closes, so a strong run or links that have been left open
before it make no difference either (`Agree`): only the part of the table does (`walk_cell`).
-/

namespace TidyMark.Render

open Token Markdown

/-- Whether two states are the same to inline content. -/
structure Alike (a b : State) : Prop where
  inside : a.inside = b.inside
  strong : a.strong = b.strong
  links : a.links = b.links

/-- Outside tables, with these lists open: the strong run and the links that are open are among the
constructs. -/
structure Poised (lists : List ListFrame) (opened : List Construct) (state : State) : Prop where
  lists : state.lists = lists
  inside : state.inside = {}
  strong : .strong ∉ opened → state.strong = none
  links : state.links.length = opened.count .link

/-- Whether two states are the same to inline content that has opened these constructs, whatever
was left open before it. -/
structure Agree (opened : List Construct) (a b : State) : Prop where
  inside : a.inside = b.inside
  strong : .strong ∈ opened → a.strong = b.strong
  links : ∃ own outer outer', own.length = opened.count .link ∧
    a.links = own ++ outer ∧ b.links = own ++ outer'

/-- What inline content comes to by itself. -/
def inlineText (xs : List Inline) : Text :=
  (walkAll (.ofOptions {}) (ofInlines [] xs)).written

/-- What the content of a cell comes to by itself in this part of a table. -/
def cellText (setting : Setting) (inside : Inside) (xs : List Inline) : Text :=
  (walk setting { inside } [] 0 false (ofInlines [] xs)).written

theorem poised_empty : Poised [] [] {} :=
  ⟨rfl, rfl, fun _ => rfl, rfl⟩

theorem Poised.alike {lists lists' : List ListFrame} {a b : State} (ha : Poised lists [] a)
    (hb : Poised lists' [] b) : Alike a b where
  inside := ha.inside.trans hb.inside.symm
  strong := (ha.strong nofun).trans (hb.strong nofun).symm
  links := (List.length_eq_zero_iff.1 ha.links).trans (List.length_eq_zero_iff.1 hb.links).symm

section Rules

variable {setting : Setting} {a b : State} {s : Sight} {lists : List ListFrame}
  {opened : List Construct}

/-- A link opens a frame, and only the report tells what has been written before. -/
theorem exists_linkOpen (s : Sight) : ∃ (frame : LinkFrame) (note : Report → Report) (text : Text),
    ∀ state, linkOpen state s =
      ({ state with links := frame :: state.links, report := note state.report }, text) := by
  obtain ⟨before, ⟨kind, content, children, level, href, src, title, alt, align, headingLevel, tight,
    block, params, id, subId⟩, after, openLinks⟩ := s
  dsimp only [linkOpen]
  by_cases himage : (following? after == some (.leaf .image)) = true
  · exact ⟨.badge, fun report => report, _, fun state => if_pos himage⟩
  · exact ⟨.link href title, (·.addLink ⟨href, title⟩), _, fun state => if_neg himage⟩

theorem exists_image (s : Sight) : ∃ (note : Report → Report) (text : Text),
    ∀ state, image state s = ({ state with report := note state.report }, text) := by
  obtain ⟨before, ⟨kind, content, children, level, href, src, title, alt, align, headingLevel, tight,
    block, params, id, subId⟩, after, openLinks⟩ := s
  dsimp only [image]
  split
  · next badge _ => exact ⟨(·.addBadge ⟨alt, src, badge⟩), _, fun _ => rfl⟩
  · exact ⟨(·.addImage ⟨alt, src, title⟩), _, fun _ => rfl⟩

theorem Alike.linkClose (h : Alike a b) :
    (linkClose a).2 = (linkClose b).2 ∧ Alike (linkClose a).1 (linkClose b).1 := by
  unfold Render.linkClose
  rw [h.links]
  split
  · exact ⟨rfl, h.inside, h.strong, rfl⟩
  · exact ⟨rfl, h.inside, h.strong, rfl⟩
  · exact ⟨rfl, h⟩

/-- In states that are the same to inline content its rules do the same. -/
theorem Alike.rule (h : Alike a b) (hk : s.token.kind.isInline = true) :
    (rule setting a s).2 = (rule setting b s).2 ∧
      Alike (rule setting a s).1 (rule setting b s).1 := by
  unfold Render.rule
  rcases hs : s.token.kind with c | c | l | name
  · cases c with
    | emphasis | deleted => exact ⟨rfl, h⟩
    | strong => exact ⟨rfl, h.inside, rfl, h.links⟩
    | link =>
      obtain ⟨frame, note, text, hlink⟩ := exists_linkOpen s
      simp only [openRule, hlink]
      exact ⟨trivial, h.inside, h.strong, by rw [h.links]⟩
    | _ => simp [hs, Kind.isInline] at hk
  · cases c with
    | emphasis | deleted =>
      simp only [closeRule, h.inside]
      exact ⟨trivial, h⟩
    | strong =>
      simp only [closeRule, strongClose, h.inside, h.strong]
      exact ⟨trivial, rfl, rfl, h.links⟩
    | link => exact h.linkClose
    | _ => simp [hs, Kind.isInline] at hk
  · cases l with
    | code | text =>
      simp only [leafRule, h.inside]
      exact ⟨trivial, h⟩
    | image =>
      obtain ⟨note, text, himage⟩ := exists_image s
      simp only [leafRule, himage]
      exact ⟨trivial, h.inside, h.strong, h.links⟩
    | hardBreak | softBreak | htmlTag | sup | footnoteRef | footnoteAnchor => exact ⟨rfl, h⟩
    | _ => simp [hs, Kind.isInline] at hk
  · simp [hs, Kind.isInline] at hk

theorem Poised.opening {c : Construct} (h : Poised lists opened a) (hs : s.token.kind = .opening c)
    (hk : s.token.kind.isInline = true) : Poised lists (c :: opened) (rule setting a s).1 := by
  have hstrong : .strong ∉ c :: opened → a.strong = none := fun hne =>
    h.strong fun hmem => hne (List.mem_cons_of_mem _ hmem)
  rw [rule_opening hs]
  cases c with
  | emphasis | deleted => exact ⟨h.lists, h.inside, hstrong, h.links⟩
  | strong => exact ⟨h.lists, h.inside, fun hne => absurd List.mem_cons_self hne, h.links⟩
  | link =>
    obtain ⟨frame, note, text, hlink⟩ := exists_linkOpen s
    simp only [openRule, hlink]
    refine ⟨h.lists, h.inside, hstrong, ?_⟩
    rw [List.length_cons, h.links, List.count_cons_self]
  | _ => simp [hs, Kind.isInline] at hk

theorem Poised.closing {c : Construct} (h : Poised lists (c :: opened) a)
    (hs : s.token.kind = .closing c) (hk : s.token.kind.isInline = true) :
    Poised lists opened (rule setting a s).1 := by
  rw [rule_closing hs]
  cases c with
  | emphasis | deleted =>
    exact ⟨h.lists, h.inside, fun hne => h.strong (by simpa using hne), h.links⟩
  | strong => exact ⟨h.lists, h.inside, fun _ => rfl, h.links⟩
  | link =>
    have hstrong : .strong ∉ opened → a.strong = none := fun hne => h.strong (by simpa using hne)
    have hlinks := h.links
    rw [List.count_cons_self] at hlinks
    dsimp only [closeRule]
    unfold linkClose
    cases hl : a.links with
    | nil => simp [hl] at hlinks
    | cons frame links =>
      rw [hl, List.length_cons, Nat.add_right_cancel_iff] at hlinks
      cases frame <;> exact ⟨h.lists, h.inside, hstrong, hlinks⟩
  | _ => simp [hs, Kind.isInline] at hk

theorem Poised.leaf {l : Leaf} (h : Poised lists opened a) (hs : s.token.kind = .leaf l) :
    Poised lists opened (rule setting a s).1 := by
  rw [rule_leaf hs]
  cases l with
  | image =>
    obtain ⟨note, text, himage⟩ := exists_image s
    simp only [leafRule, himage]
    exact ⟨h.lists, h.inside, h.strong, h.links⟩
  | _ => exact h

theorem Agree.opening {c : Construct} (h : Agree opened a b) (hs : s.token.kind = .opening c)
    (hk : s.token.kind.isInline = true) :
    (rule setting a s).2 = (rule setting b s).2 ∧
      Agree (c :: opened) (rule setting a s).1 (rule setting b s).1 := by
  have hstrong : c ≠ .strong → .strong ∈ c :: opened → a.strong = b.strong := fun hc hmem =>
    h.strong ((List.mem_cons.1 hmem).resolve_left hc.symm)
  rw [rule_opening hs, rule_opening hs]
  cases c with
  | emphasis | deleted => exact ⟨rfl, h.inside, hstrong nofun, h.links⟩
  | strong => exact ⟨rfl, h.inside, fun _ => rfl, h.links⟩
  | link =>
    obtain ⟨frame, note, text, hlink⟩ := exists_linkOpen s
    obtain ⟨own, outer, outer', hlength, hown, hown'⟩ := h.links
    simp only [openRule, hlink]
    refine ⟨trivial, h.inside, hstrong nofun, frame :: own, outer, outer', ?_, ?_, ?_⟩
    · rw [List.length_cons, hlength, List.count_cons_self]
    · rw [hown, List.cons_append]
    · rw [hown', List.cons_append]
  | _ => simp [hs, Kind.isInline] at hk

theorem Agree.closing {c : Construct} (h : Agree (c :: opened) a b)
    (hs : s.token.kind = .closing c) (hk : s.token.kind.isInline = true) :
    (rule setting a s).2 = (rule setting b s).2 ∧
      Agree opened (rule setting a s).1 (rule setting b s).1 := by
  have hstrong : .strong ∈ opened → a.strong = b.strong := fun hmem =>
    h.strong (List.mem_cons_of_mem _ hmem)
  rw [rule_closing hs, rule_closing hs]
  cases c with
  | emphasis | deleted =>
    simp only [closeRule, h.inside]
    exact ⟨trivial, h.inside, hstrong, h.links⟩
  | strong =>
    simp only [closeRule, strongClose, h.inside, h.strong List.mem_cons_self]
    exact ⟨trivial, rfl, fun _ => rfl, h.links⟩
  | link =>
    obtain ⟨own, outer, outer', hlength, hown, hown'⟩ := h.links
    rw [List.count_cons_self] at hlength
    obtain ⟨frame, own, rfl⟩ := List.exists_cons_of_length_eq_add_one hlength
    rw [List.length_cons, Nat.add_right_cancel_iff] at hlength
    dsimp only [closeRule]
    unfold linkClose
    rw [hown, hown', List.cons_append, List.cons_append]
    cases frame <;> exact ⟨rfl, h.inside, hstrong, own, outer, outer', hlength, rfl, rfl⟩
  | _ => simp [hs, Kind.isInline] at hk

theorem Agree.leaf {l : Leaf} (h : Agree opened a b) (hs : s.token.kind = .leaf l)
    (hk : s.token.kind.isInline = true) :
    (rule setting a s).2 = (rule setting b s).2 ∧
      Agree opened (rule setting a s).1 (rule setting b s).1 := by
  rw [rule_leaf hs, rule_leaf hs]
  cases l with
  | code | text =>
    simp only [leafRule, h.inside]
    exact ⟨trivial, h⟩
  | image =>
    obtain ⟨note, text, himage⟩ := exists_image s
    simp only [leafRule, himage]
    exact ⟨trivial, h.inside, h.strong, h.links⟩
  | hardBreak | softBreak | htmlTag | sup | footnoteRef | footnoteAnchor => exact ⟨rfl, h⟩
  | _ => simp [hs, Kind.isInline] at hk

/-- The rules of inline content do not look after tables. -/
theorem table_rule (hk : s.token.kind.isInline = true) :
    (rule setting a s).1.inside = a.inside ∧ (rule setting a s).1.aligns = a.aligns := by
  unfold rule
  rcases hs : s.token.kind with c | c | l | name
  · cases c with
    | emphasis | deleted | strong => exact ⟨rfl, rfl⟩
    | link =>
      obtain ⟨frame, note, text, hlink⟩ := exists_linkOpen s
      simp only [openRule, hlink, and_self]
    | _ => simp [hs, Kind.isInline] at hk
  · cases c with
    | emphasis | deleted | strong => exact ⟨rfl, rfl⟩
    | link =>
      dsimp only [closeRule]
      unfold linkClose
      split <;> exact ⟨rfl, rfl⟩
    | _ => simp [hs, Kind.isInline] at hk
  · cases l with
    | image =>
      obtain ⟨note, text, himage⟩ := exists_image s
      simp only [leafRule, himage, and_self]
    | _ => exact ⟨rfl, rfl⟩
  · simp [hs, Kind.isInline] at hk

end Rules

section Walks

variable {setting : Setting} {tokens : List Token}

theorem step_of_isInline {t : Token} (ht : t.kind.isInline = true) (state : State)
    (before after : List Token) (openLinks : Nat) (takes : Bool) :
    step setting state before after openLinks takes t =
      ⟨(rule setting state ⟨before, settle takes t after, after, openLinks⟩).1,
        settle takes t after,
        (rule setting state ⟨before, settle takes t after, after, openLinks⟩).2, none⟩ := by
  rcases step_cases setting state before after openLinks takes (Kind.ne_of_isInline ht) with
    ⟨name, hk, -⟩ | ⟨-, hstep⟩
  · rw [hk] at ht
    cases ht
  · exact hstep

theorem Alike.walk (hinline : ∀ t ∈ tokens, t.kind.isInline = true) : ∀ {a b : State},
    Alike a b → ∀ (before : List Token) (openLinks : Nat) (takes : Bool),
      (walk setting a before openLinks takes tokens).pieces =
        (walk setting b before openLinks takes tokens).pieces := by
  induction tokens with
  | nil =>
    intro a b _ before openLinks takes
    rw [walk_nil, walk_nil]
  | cons t after ih =>
    intro a b h before openLinks takes
    obtain ⟨ht, hafter⟩ := List.forall_mem_cons.1 hinline
    have hkind := kind_settle takes t after
    obtain ⟨hwritten, hnext⟩ := @Alike.rule setting a b
      ⟨before, settle takes t after, after, openLinks⟩ h (hkind ▸ ht)
    rw [walk_cons (step_of_isInline ht a before after openLinks takes) rfl,
      walk_cons (step_of_isInline ht b before after openLinks takes) rfl, hwritten,
      ih hafter hnext]

/-- Bracketed inline content closes what has been opened before it. -/
theorem Poised.walk {lists : List ListFrame} (hinline : ∀ t ∈ tokens, t.kind.isInline = true) :
    ∀ {opened : List Construct} {state : State}, Poised lists opened state →
      isBracketed (fun _ => none) opened tokens = true →
      ∀ (before : List Token) (openLinks : Nat) (takes : Bool),
        Poised lists [] (walk setting state before openLinks takes tokens).state ∧
          (walk setting state before openLinks takes tokens).stopped = none := by
  induction tokens with
  | nil =>
    intro opened state h hbracketed before openLinks takes
    obtain rfl : opened = [] := by simpa [isBracketed] using hbracketed
    rw [walk_nil]
    exact ⟨h, rfl⟩
  | cons t after ih =>
    intro opened state h hbracketed before openLinks takes
    obtain ⟨ht, hafter⟩ := List.forall_mem_cons.1 hinline
    have hkind := kind_settle takes t after
    have hsettled : (settle takes t after).kind.isInline = true := hkind ▸ ht
    rw [walk_cons (step_of_isInline ht state before after openLinks takes) rfl]
    rcases isBracketed_cases ht hbracketed with
      ⟨c, hk, hrest⟩ | ⟨c, outer, hk, rfl, hrest⟩ | ⟨l, hk, hrest⟩
    · exact ih hafter (h.opening (hkind.trans hk) hsettled) hrest _ _ _
    · exact ih hafter (h.closing (hkind.trans hk) hsettled) hrest _ _ _
    · exact ih hafter (h.leaf (hkind.trans hk)) hrest _ _ _

/-- Inline content in the midst of a document, where no inline content is open. -/
theorem walk_ofInlines {lists : List ListFrame} {state : State} (h : Poised lists [] state)
    (xs : List Inline) :
    (walk (.ofOptions {}) state [] 0 false (ofInlines [] xs)).written = inlineText xs ∧
      Poised lists [] (walk (.ofOptions {}) state [] 0 false (ofInlines [] xs)).state ∧
      (walk (.ofOptions {}) state [] 0 false (ofInlines [] xs)).stopped = none := by
  have hinline : ∀ t ∈ ofInlines [] xs, t.kind.isInline = true := @isInline_ofInlines [] nofun xs
  refine ⟨?_, h.walk hinline (isOrdered_ofInlines xs).bracketed [] 0 false⟩
  rw [Walk.written, (h.alike poised_empty).walk hinline]
  rfl

/-- Bracketed inline content does the same in states that agree. -/
theorem Agree.walk (hinline : ∀ t ∈ tokens, t.kind.isInline = true) :
    ∀ {opened : List Construct} {a b : State}, Agree opened a b →
      isBracketed (fun _ => none) opened tokens = true →
      ∀ (before : List Token) (openLinks : Nat) (takes : Bool),
        (walk setting a before openLinks takes tokens).pieces =
          (walk setting b before openLinks takes tokens).pieces := by
  induction tokens with
  | nil =>
    intro opened a b _ _ before openLinks takes
    rw [walk_nil, walk_nil]
  | cons t after ih =>
    intro opened a b h hbracketed before openLinks takes
    obtain ⟨ht, hafter⟩ := List.forall_mem_cons.1 hinline
    have hkind := kind_settle takes t after
    have hsettled : (settle takes t after).kind.isInline = true := hkind ▸ ht
    rw [walk_cons (step_of_isInline ht a before after openLinks takes) rfl,
      walk_cons (step_of_isInline ht b before after openLinks takes) rfl]
    rcases isBracketed_cases ht hbracketed with
      ⟨c, hk, hrest⟩ | ⟨c, outer, hk, rfl, hrest⟩ | ⟨l, hk, hrest⟩
    · obtain ⟨hwritten, hnext⟩ := @Agree.opening setting a b
        ⟨before, settle takes t after, after, openLinks⟩ _ _ h (hkind.trans hk) hsettled
      rw [hwritten, ih hafter hnext hrest]
    · obtain ⟨hwritten, hnext⟩ := @Agree.closing setting a b
        ⟨before, settle takes t after, after, openLinks⟩ _ _ h (hkind.trans hk) hsettled
      rw [hwritten, ih hafter hnext hrest]
    · obtain ⟨hwritten, hnext⟩ := @Agree.leaf setting a b
        ⟨before, settle takes t after, after, openLinks⟩ _ _ h (hkind.trans hk) hsettled
      rw [hwritten, ih hafter hnext hrest]

theorem table_walk (hinline : ∀ t ∈ tokens, t.kind.isInline = true) :
    ∀ (state : State) (before : List Token) (openLinks : Nat) (takes : Bool),
      (walk setting state before openLinks takes tokens).state.inside = state.inside ∧
        (walk setting state before openLinks takes tokens).state.aligns = state.aligns ∧
        (walk setting state before openLinks takes tokens).stopped = none := by
  induction tokens with
  | nil =>
    intro state before openLinks takes
    rw [walk_nil]
    exact ⟨rfl, rfl, rfl⟩
  | cons t after ih =>
    intro state before openLinks takes
    obtain ⟨ht, hafter⟩ := List.forall_mem_cons.1 hinline
    have hkind := kind_settle takes t after
    obtain ⟨hinside, haligns⟩ := @table_rule setting state
      ⟨before, settle takes t after, after, openLinks⟩ (hkind ▸ ht)
    rw [walk_cons (step_of_isInline ht state before after openLinks takes) rfl, ← hinside,
      ← haligns]
    exact ih hafter _ _ _ _

/-- Only the part of the table makes a difference to the content of a cell, and it is the same
behind it. -/
theorem walk_cell (state : State) (xs : List Inline) :
    (walk setting state [] 0 false (ofInlines [] xs)).written =
        cellText setting state.inside xs ∧
      (walk setting state [] 0 false (ofInlines [] xs)).state.inside = state.inside ∧
      (walk setting state [] 0 false (ofInlines [] xs)).state.aligns = state.aligns ∧
      (walk setting state [] 0 false (ofInlines [] xs)).stopped = none := by
  have hinline : ∀ t ∈ ofInlines [] xs, t.kind.isInline = true := @isInline_ofInlines [] nofun xs
  have hagree : Agree [] state { inside := state.inside } :=
    ⟨rfl, nofun, [], state.links, [], rfl, rfl, rfl⟩
  refine ⟨?_, table_walk hinline state [] 0 false⟩
  rw [Walk.written, hagree.walk hinline (isOrdered_ofInlines xs).bracketed]
  rfl

end Walks

end TidyMark.Render
