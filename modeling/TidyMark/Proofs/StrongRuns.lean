import TidyMark.Proofs.InlineWalk
import TidyMark.Proofs.Run

/-!
# Where strong runs end their line

The end of a strong run stays on its line if text stands directly before the run or if the line goes
on behind it. Only the first of these has to be kept in mind: in one cell, which every start of a
run fills and every end empties (`strong_rule`). So a run that has another run in it finds the cell
empty at its end (`Run.strong_of_paired`), and where its line ends there, a line feed is written
even though text stands before it (`written_strongClose`).
-/

namespace TidyMark.Render

/-- Kinds of tokens among which each construct of one sort that begins ends, and no other does. -/
inductive Paired (c : Construct) : List Kind → Prop
  | nil : Paired c []
  | other {k : Kind} {ks : List Kind} (hopening : k ≠ .opening c) (hclosing : k ≠ .closing c)
      (h : Paired c ks) : Paired c (k :: ks)
  | enclosed {inside ks : List Kind} (hinside : Paired c inside) (h : Paired c ks) :
      Paired c (.opening c :: (inside ++ .closing c :: ks))

/-- Whether a token of this kind begins or ends a part of a table. -/
def ofTable : Kind → Bool
  | .opening c | .closing c =>
    [Construct.table, .tableHead, .tableBody, .tableRow, .headerCell, .dataCell].contains c
  | _ => false

/-- Whether the line ends before these tokens. -/
def lineEnds (after : List Token) : Bool :=
  following? after == none || following? after == some (.leaf .softBreak)

/-- Whether text stands directly before. -/
def behindText (before : List Token) : Bool :=
  preceding? before == some (.leaf .text)

/-- Whether a strong run begins among these tokens. -/
def hasStrong (ks : List Kind) : Bool :=
  ks.contains (.opening .strong)

/-- The end of a strong run, which stays on its line or ends it. -/
def strongEnd (stays : Bool) : Text :=
  if stays then "**" else "**\n"

theorem strongEnd_eq_iff (text nested ends : Bool) :
    strongEnd (text && !nested || !ends) = strongEnd (text || !ends) ↔
      ¬ (text && nested && ends) := by
  cases text <;> cases nested <;> cases ends <;> simp [strongEnd]

section Pairs

variable {c : Construct} {ks front behind : List Kind}

/-- What ends has begun, and what stands between is paired. -/
theorem Paired.exists_opening (h : Paired c ks) (hks : ks = front ++ .closing c :: behind) :
    ∃ outside inside, front = outside ++ .opening c :: inside ∧ Paired c inside := by
  induction h generalizing front behind with
  | nil => simp at hks
  | @other k ks _ hclosing _ ih =>
    rcases front with _ | ⟨k', front⟩
    · exact absurd (List.cons.inj hks).1 hclosing
    · obtain ⟨rfl, hrest⟩ := List.cons.inj hks
      obtain ⟨outside, inside, rfl, hinside⟩ := ih hrest
      exact ⟨k :: outside, inside, rfl, hinside⟩
  | @enclosed inside ks hinside _ ihinside ih =>
    rcases front with _ | ⟨k', front⟩
    · exact absurd (List.cons.inj hks).1 nofun
    · obtain ⟨rfl, hrest⟩ := List.cons.inj hks
      rcases List.append_eq_append_iff.1 hrest with ⟨mid, rfl, hmid⟩ | ⟨mid, rfl, hmid⟩
      · rcases mid with _ | ⟨k, mid⟩
        · exact ⟨[], inside, by simp, hinside⟩
        · obtain ⟨rfl, hbehind⟩ := List.cons.inj hmid
          obtain ⟨outside, inner, rfl, hinner⟩ := ih hbehind
          exact ⟨.opening c :: (inside ++ .closing c :: outside), inner, by simp, hinner⟩
      · rcases mid with _ | ⟨k, mid⟩
        · exact ⟨[], front, rfl, by simpa using hinside⟩
        · obtain ⟨rfl, -⟩ := List.cons.inj hmid
          obtain ⟨outside, inner, rfl, hinner⟩ := ihinside rfl
          exact ⟨.opening c :: outside, inner, rfl, hinner⟩

end Pairs

section Rules

variable {setting : Setting} {state : State} {s : Sight}

theorem keeps_openRule {c : Construct} (h : ofTable (.opening c) = false) :
    (openRule setting state s c).1.inside = state.inside ∧
      (c ≠ .strong → (openRule setting state s c).1.strong = state.strong) := by
  cases c with
  | strong => exact ⟨rfl, fun hc => absurd rfl hc⟩
  | link =>
    obtain ⟨frame, note, text, hlink⟩ := exists_linkOpen s
    simp only [openRule, hlink]
    exact ⟨trivial, fun _ => trivial⟩
  | listItem =>
    rw [openRule, listItemOpen]
    split
    · split_ifs <;> exact ⟨rfl, fun _ => rfl⟩
    · exact ⟨rfl, fun _ => rfl⟩
  | table | tableHead | tableBody | tableRow | headerCell | dataCell => cases h
  | _ => exact ⟨rfl, fun _ => rfl⟩

theorem keeps_closeRule {c : Construct} (h : ofTable (.closing c) = false) :
    (closeRule state s c).1.inside = state.inside ∧
      (c ≠ .strong → (closeRule state s c).1.strong = state.strong) := by
  cases c with
  | strong => exact ⟨rfl, fun hc => absurd rfl hc⟩
  | link =>
    rw [closeRule, linkClose]
    split <;> exact ⟨rfl, fun _ => rfl⟩
  | table | tableHead | tableBody | tableRow | headerCell | dataCell => cases h
  | _ => exact ⟨rfl, fun _ => rfl⟩

theorem keeps_leafRule (l : Leaf) : (leafRule setting state s l).1.inside = state.inside ∧
    (leafRule setting state s l).1.strong = state.strong := by
  cases l with
  | image =>
    obtain ⟨note, text, himage⟩ := exists_image s
    simp only [leafRule, himage, and_self]
  | _ => exact ⟨rfl, rfl⟩

/-- Only the starts and ends of strong runs have to do with the cell, and only those of tables with
what part of a table it is. -/
theorem keeps_rule (h : ofTable s.token.kind = false) :
    (rule setting state s).1.inside = state.inside ∧
      (s.token.kind ≠ .opening .strong → s.token.kind ≠ .closing .strong →
        (rule setting state s).1.strong = state.strong) := by
  cases hk : s.token.kind with
  | opening c =>
    obtain ⟨hinside, hstrong⟩ := @keeps_openRule setting state s c (hk ▸ h)
    rw [rule_opening hk]
    exact ⟨hinside, fun hne _ => hstrong fun hc => hne (congrArg Kind.opening hc)⟩
  | closing c =>
    obtain ⟨hinside, hstrong⟩ := @keeps_closeRule state s c (hk ▸ h)
    rw [rule_closing hk]
    exact ⟨hinside, fun _ hne => hstrong fun hc => hne (congrArg Kind.closing hc)⟩
  | leaf l =>
    obtain ⟨hinside, hstrong⟩ := @keeps_leafRule setting state s l
    rw [rule_leaf hk]
    exact ⟨hinside, fun _ _ => hstrong⟩
  | unknown name =>
    rw [rule, hk]
    exact ⟨rfl, fun _ _ => rfl⟩

/-- The start of a run keeps in mind what stands before it. -/
theorem strong_opening (hk : s.token.kind = .opening .strong) :
    (rule setting state s).1.strong = some (behindText s.before) := by
  rw [rule_opening hk]
  rfl

theorem strong_closing (hk : s.token.kind = .closing .strong) :
    (rule setting state s).1.strong = none := by
  rw [rule_closing hk]
  rfl

theorem closeMark_strong {inside : Inside} (htable : inside.table = false) (after : List Token) :
    closeMark inside after "**" = strongEnd (!lineEnds after) := by
  unfold closeMark lineEnds
  rw [htable]
  rcases following? after with _ | k
  · rfl
  · by_cases hk : k = .leaf .softBreak
    · subst hk
      rfl
    · simp [hk, strongEnd]

/-- The end of a run goes by the cell and by what is behind it. -/
theorem written_closing (hk : s.token.kind = .closing .strong) (htable : state.inside.table = false)
    (hcell : state.inside.headerCell = false) : (rule setting state s).2 =
      strongEnd (state.strong.getD false || !lineEnds s.after) := by
  have hclose : (rule setting state s).2 =
      if state.strong.getD false || state.inside.headerCell then ("**" : Text)
      else closeMark state.inside s.after "**" := by
    rw [rule_closing hk]
    rfl
  rw [hclose, hcell, closeMark_strong htable]
  cases state.strong.getD false <;> rfl

end Rules

section Runs

variable {setting : Setting} {behind before : List Token} {state state' : State}
  {xs : List (Token × Piece)}

theorem Run.inside (h : Run setting behind before state xs state')
    (htable : ∀ k ∈ xs.map (·.1.kind), ofTable k = false) : state'.inside = state.inside := by
  induction h with
  | nil => rfl
  | cons s _ _ ih =>
    obtain ⟨hs, hrest⟩ := List.forall_mem_cons.1 htable
    exact (ih hrest).trans (keeps_rule hs).1

/-- Behind paired strong runs the cell is empty, and where there are none it is as it was. -/
theorem Run.strong (h : Run setting behind before state xs state')
    (htable : ∀ k ∈ xs.map (·.1.kind), ofTable k = false)
    (hpaired : Paired .strong (xs.map (·.1.kind))) :
    state'.strong = if hasStrong (xs.map (·.1.kind)) then none else state.strong := by
  generalize hks : xs.map (·.1.kind) = ks at hpaired htable ⊢
  induction hpaired generalizing behind before state state' xs with
  | nil =>
    obtain rfl := List.map_eq_nil_iff.1 hks
    cases h
    rfl
  | @other k ks hopening hclosing _ ih =>
    obtain ⟨⟨t, p⟩, rest, rfl, rfl, hrest⟩ := List.map_eq_cons_iff.1 hks
    obtain ⟨ht, hothers⟩ := List.forall_mem_cons.1 htable
    cases h with
    | cons s _ h =>
      have hhas : hasStrong (s.token.kind :: ks) = hasStrong ks := by
        simp [hasStrong, hopening.symm]
      rw [ih h hrest hothers, (keeps_rule ht).2 hopening hclosing]
      exact hhas ▸ rfl
  | @enclosed inside ks _ _ ihinside ih =>
    have hhas : hasStrong (.opening .strong :: (inside ++ .closing .strong :: ks)) = true := by
      simp [hasStrong]
    obtain ⟨⟨o, p⟩, rest, rfl, ho, hrest⟩ := List.map_eq_cons_iff.1 hks
    obtain ⟨inner, rest, rfl, hinner, hclosing⟩ := List.map_eq_append_iff.1 hrest
    obtain ⟨⟨c, q⟩, rest, rfl, hc, hbehind⟩ := List.map_eq_cons_iff.1 hclosing
    obtain ⟨_, -, -, -, -, h⟩ := h.head
    obtain ⟨_, -, h⟩ := h.append
    obtain ⟨s, -, rfl, -, -, h⟩ := h.head
    have hothers : ∀ k ∈ ks, ofTable k = false := fun k hk => htable k (by simp [hk])
    rw [ih h hbehind hothers, strong_closing hc, hhas, ite_self]
    rfl

/-- Behind what stands in a strong run, its end is written by what the cell has been left as. -/
theorem Run.closes {o c : Token} {p q : Piece} {ys : List (Token × Piece)}
    (h : Run setting behind before state ((o, p) :: (xs ++ (c, q) :: ys)) state')
    (hstate : state.inside.table = false ∧ state.inside.headerCell = false)
    (ho : o.kind = .opening .strong) (hc : c.kind = .closing .strong)
    (htable : ∀ k ∈ xs.map (·.1.kind), ofTable k = false)
    (hpaired : Paired .strong (xs.map (·.1.kind))) :
    q.text = strongEnd (behindText before && !hasStrong (xs.map (·.1.kind)) ||
      !lineEnds (ys.map Prod.fst ++ behind)) := by
  obtain ⟨s, rfl, rfl, -, -, h⟩ := h.head
  obtain ⟨mid, hxs, h⟩ := h.append
  obtain ⟨s', -, rfl, hafter, hq, -⟩ := h.head
  have hopened : ofTable s.token.kind = false := by rw [ho]; rfl
  have hinside : mid.inside = state.inside := (hxs.inside htable).trans (keeps_rule hopened).1
  have hends : lineEnds s'.after = lineEnds (ys.map Prod.fst ++ behind) := by
    rw [lineEnds, hafter, ← lineEnds]
  rw [hq, written_closing hc (hinside ▸ hstate.1) (hinside ▸ hstate.2), hxs.strong htable hpaired,
    strong_opening ho, hends]
  cases hasStrong (xs.map (·.1.kind)) <;> simp

end Runs

section Ends

/-- A walk outside tables over inline tokens whose strong runs are nested properly. Each end of a run
belongs to a start, and it stays on its line if text stands directly before the run and no run is in
it, or if the line goes on behind it. So it is as the start alone would have it, unless another run
is in it, text stands before it and the line ends behind it. -/
theorem written_strongEnd (setting : Setting) {state : State} (before : List Token)
    (openLinks : Nat) (takes : Bool) {ts : List Token}
    (hstate : state.inside.table = false ∧ state.inside.headerCell = false)
    (hinline : ∀ t ∈ ts, t.kind ≠ .leaf .inline) (htable : ∀ t ∈ ts, ofTable t.kind = false)
    (hknown : ∀ t ∈ ts, ∀ name, t.kind = .unknown name → setting.options.strict = false)
    (hpaired : Paired .strong (ts.map (·.kind))) :
    let w := walk setting state before openLinks takes ts
    w.stopped = none ∧ w.pieces.length = w.tokens.length ∧
      (∀ (front : List (Token × Piece)) (c : Token) (q : Piece) (behind : List (Token × Piece)),
        w.tokens.zip w.pieces = front ++ (c, q) :: behind → c.kind = .closing .strong →
        ∃ outside o p inside, front = outside ++ (o, p) :: inside ∧ o.kind = .opening .strong ∧
          Paired .strong (inside.map (·.1.kind))) ∧
      ∀ (outside : List (Token × Piece)) (o : Token) (p : Piece) (inside : List (Token × Piece))
        (c : Token) (q : Piece) (behind : List (Token × Piece)),
        w.tokens.zip w.pieces = outside ++ (o, p) :: (inside ++ (c, q) :: behind) →
        o.kind = .opening .strong → c.kind = .closing .strong →
        Paired .strong (inside.map (·.1.kind)) →
        let text := behindText ((outside.map Prod.fst).reverse ++ before)
        let nested := hasStrong (inside.map (·.1.kind))
        let ends := lineEnds (behind.map Prod.fst)
        q.text = strongEnd (text && !nested || !ends) ∧
          (q.text = strongEnd (text || !ends) ↔ ¬ (text && nested && ends)) := by
  intro w
  obtain ⟨hstop, hlength, hkinds, hrun⟩ := run_walk hinline hknown state before openLinks takes
    (rfl : _ = w)
  refine ⟨hstop, hlength, fun front c q behind hsplit hc => ?_, ?_⟩
  · have hall : ts.map (·.kind) =
        front.map (·.1.kind) ++ .closing .strong :: behind.map (·.1.kind) := by
      rw [← hkinds, hsplit, List.map_append, List.map_cons, hc]
    obtain ⟨_, _, hfront, hinside⟩ := hpaired.exists_opening hall
    obtain ⟨outside, _, rfl, -, hopening⟩ := List.map_eq_append_iff.1 hfront
    obtain ⟨⟨o, p⟩, inside, rfl, ho, rfl⟩ := List.map_eq_cons_iff.1 hopening
    exact ⟨outside, o, p, inside, rfl, ho, hinside⟩
  · intro outside o p inside c q behind hsplit ho hc hinside text nested ends
    have htables : ∀ k ∈ (w.tokens.zip w.pieces).map (·.1.kind), ofTable k = false := by
      rw [hkinds]
      exact List.forall_mem_map.2 htable
    rw [hsplit, List.map_append, List.map_cons, List.map_append, List.forall_mem_append,
      List.forall_mem_cons, List.forall_mem_append] at htables
    obtain ⟨houtside, -, hinner, -⟩ := htables
    rw [hsplit] at hrun
    obtain ⟨mid, hout, hrun⟩ := hrun.append
    have hmid : mid.inside = state.inside := hout.inside houtside
    have hwritten : q.text = strongEnd (text && !nested || !ends) := by
      have hcloses := hrun.closes (hmid ▸ hstate) ho hc hinner hinside
      rwa [List.append_nil] at hcloses
    exact ⟨hwritten, hwritten ▸ strongEnd_eq_iff text nested ends⟩

/-- In a run that text stands before there is another one, and the line ends behind both. -/
theorem written_strongEnd_nested :
    let setting : Setting := .ofOptions {}
    let o : Token := { kind := .opening .strong }
    let c : Token := { kind := .closing .strong }
    let x : Token := { content := "x " }
    let b : Token := { content := "b" }
    let w := walk setting {} [] 0 false [x, o, o, b, c, c]
    let inside : List (Token × Piece) := [(o, ⟨.plain, "**"⟩), (b, ⟨.plain, "b"⟩), (c, ⟨.plain, "**"⟩)]
    ({} : State).inside.table = false ∧ ({} : State).inside.headerCell = false ∧
      (∀ t ∈ [x, o, o, b, c, c], t.kind ≠ .leaf .inline) ∧
      (∀ t ∈ [x, o, o, b, c, c], ofTable t.kind = false) ∧
      (∀ t ∈ [x, o, o, b, c, c], ∀ name, t.kind = .unknown name → setting.options.strict = false) ∧
      Paired .strong ([x, o, o, b, c, c].map (·.kind)) ∧
      w.tokens.zip w.pieces =
        [(x, ⟨.plain, "x "⟩)] ++ (o, ⟨.plain, "**"⟩) :: (inside ++ (c, ⟨.plain, "**\n"⟩) :: []) ∧
      Paired .strong (inside.map (·.1.kind)) ∧
      ("**\n" : Text) = strongEnd (behindText [x] && !hasStrong (inside.map (·.1.kind)) ||
        !lineEnds []) := by
  intro setting o c x b w inside
  have hinline : ∀ t ∈ [x, o, o, b, c, c], t.kind ≠ .leaf .inline := by decide
  have htable : ∀ t ∈ [x, o, o, b, c, c], ofTable t.kind = false := by decide
  have hknown : ∀ t ∈ [x, o, o, b, c, c], ∀ name, t.kind = .unknown name →
      setting.options.strict = false := fun _ _ _ _ => rfl
  have hinside : Paired .strong (inside.map (·.1.kind)) :=
    @Paired.enclosed .strong [.leaf .text] [] (.other nofun nofun .nil) .nil
  have hpaired : Paired .strong ([x, o, o, b, c, c].map (·.kind)) :=
    .other nofun nofun
      (@Paired.enclosed .strong [.opening .strong, .leaf .text, .closing .strong] [] hinside .nil)
  have hsplit : w.tokens.zip w.pieces =
      [(x, ⟨.plain, "x "⟩)] ++ (o, ⟨.plain, "**"⟩) :: (inside ++ (c, ⟨.plain, "**\n"⟩) :: []) := rfl
  have hstate : ({} : State).inside.table = false ∧ ({} : State).inside.headerCell = false :=
    ⟨rfl, rfl⟩
  obtain ⟨-, -, -, hends⟩ := written_strongEnd setting [] 0 false hstate hinline htable hknown
    hpaired
  exact ⟨rfl, rfl, hinline, htable, hknown, hpaired, hsplit, hinside,
    (hends _ o _ inside c _ [] hsplit rfl rfl hinside).1⟩

/-- The end of a run with another run in it goes to a new line although text stands before it. -/
theorem not_forall_written_strongEnd :
    ¬ ∀ (setting : Setting) (ts : List Token), (∀ t ∈ ts, t.kind ≠ .leaf .inline) →
      (∀ t ∈ ts, ofTable t.kind = false) →
      (∀ t ∈ ts, ∀ name, t.kind = .unknown name → setting.options.strict = false) →
      Paired .strong (ts.map (·.kind)) →
      let w := walk setting {} [] 0 false ts
      ∀ (outside : List (Token × Piece)) (o : Token) (p : Piece) (inside : List (Token × Piece))
        (c : Token) (q : Piece) (behind : List (Token × Piece)),
        w.tokens.zip w.pieces = outside ++ (o, p) :: (inside ++ (c, q) :: behind) →
        o.kind = .opening .strong → c.kind = .closing .strong →
        Paired .strong (inside.map (·.1.kind)) →
        q.text = strongEnd (behindText (outside.map Prod.fst).reverse ||
          !lineEnds (behind.map Prod.fst)) := by
  intro h
  let o : Token := { kind := .opening .strong }
  let c : Token := { kind := .closing .strong }
  let x : Token := { content := "x " }
  let inside : List (Token × Piece) := [(o, ⟨.plain, "**"⟩), (c, ⟨.plain, "**"⟩)]
  have hinside : Paired .strong (inside.map (·.1.kind)) := @Paired.enclosed .strong [] [] .nil .nil
  have hpaired : Paired .strong ([x, o, o, c, c].map (·.kind)) :=
    .other nofun nofun
      (@Paired.enclosed .strong [.opening .strong, .closing .strong] [] hinside .nil)
  have hend := h (.ofOptions {}) [x, o, o, c, c] (by decide) (by decide) (fun _ _ _ _ => rfl)
    hpaired [(x, ⟨.plain, "x "⟩)] o ⟨.plain, "**"⟩ inside c ⟨.plain, "**\n"⟩ [] rfl rfl rfl hinside
  exact absurd hend (by decide)

end Ends

end TidyMark.Render
