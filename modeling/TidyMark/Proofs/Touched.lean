import TidyMark.Proofs.Walk

/-!
# What a rendering changes in the tokens

A rendering gives links and images their addresses and takes fragments off the texts behind them.
It changes nothing else in the tokens (`kept_render`), whether it comes to their end or stops
before, and no text loses more than one fragment. Which texts may lose one is said by the tokens
before them (`MayLose`); the walk only counts the links that are open, and behind `n` open links
there are `n` beginnings whose ends are still to come (`Enclosed`), which each token keeps up
(`enclosed_cons`).
-/

namespace TidyMark.Render

section Links

/-- Tokens among which every link that begins ends, and that end no other link. -/
inductive LinksPaired : List Token → Prop
  | nil : LinksPaired []
  | other {t : Token} {ts : List Token} (hopening : t.kind ≠ .opening .link)
      (hclosing : t.kind ≠ .closing .link) (h : LinksPaired ts) : LinksPaired (t :: ts)
  | link {opening closing : Token} {inside ts : List Token} (hopening : opening.kind = .opening .link)
      (hclosing : closing.kind = .closing .link) (hinside : LinksPaired inside)
      (h : LinksPaired ts) : LinksPaired (opening :: (inside ++ closing :: ts))

/-- Whether a link ends behind `before`, whose nearest token comes first. -/
def EndsLink (before : List Token) : Prop :=
  ∃ inside opening outer, before = inside.reverse ++ opening :: outer ∧
    opening.kind = .opening .link ∧ LinksPaired inside

/-- Whether the links that `n` of the tokens begin end behind them, one in the other. -/
def Enclosed : Nat → List Token → Prop
  | 0, _ => True
  | n + 1, before => ∃ inside opening outer, before = inside.reverse ++ opening :: outer ∧
      opening.kind = .opening .link ∧ LinksPaired inside ∧ Enclosed n outer

variable {n : Nat} {before : List Token} {t : Token}

theorem LinksPaired.append {ts us : List Token} (h : LinksPaired ts) (hu : LinksPaired us) :
    LinksPaired (ts ++ us) := by
  induction h with
  | nil => exact hu
  | other hopening hclosing _ ih => exact .other hopening hclosing ih
  | link hopening hclosing hinside _ _ ih =>
    rw [List.cons_append, List.append_assoc, List.cons_append]
    exact .link hopening hclosing hinside ih

theorem Enclosed.endsLink (h : Enclosed (n + 1) before) : EndsLink before := by
  obtain ⟨inside, opening, outer, hbefore, hopening, hinside, -⟩ := h
  exact ⟨inside, opening, outer, hbefore, hopening, hinside⟩

theorem Enclosed.append (h : Enclosed n before) {ts : List Token} (hts : LinksPaired ts) :
    Enclosed n (ts.reverse ++ before) := by
  cases n with
  | zero => trivial
  | succ n =>
    obtain ⟨inside, opening, outer, rfl, hopening, hinside, houter⟩ := h
    exact ⟨inside ++ ts, opening, outer, by simp, hopening, hinside.append hts, houter⟩

/-- The count of open links goes along with the links that enclose the place. -/
theorem enclosed_cons (h : Enclosed n before) : Enclosed (linksAfter n t.kind) (t :: before) := by
  unfold linksAfter
  split
  · next hk => exact ⟨[], t, before, rfl, hk, .nil, h⟩
  · next hk =>
    cases n with
    | zero => trivial
    | succ n =>
      obtain ⟨inside, opening, outer, rfl, hopening, hinside, houter⟩ := h
      have hpaired : LinksPaired (opening :: (inside ++ [t])) := .link hopening hk hinside .nil
      simpa using houter.append hpaired
  · next hopening hclosing =>
    exact h.append (.other hopening hclosing .nil)

end Links

section Changes

/-- Whether a text loses a fragment in braces at its start. A space takes its place where a word
character follows. -/
def LosesFragment (t t' : Text) : Prop :=
  ∃ fragment rest, fragment ≠ [] ∧ '\x7d' ∉ fragment ∧ t = '\x7b' :: (fragment ++ '\x7d' :: rest) ∧
    t' = if rest.head?.any isWordChar then ' ' :: rest else rest

/-- Whether a text behind `before` may lose a fragment: it directly follows an image or the end of
a link. -/
def MayLose : List Token → Prop
  | [] => False
  | p :: before => p.kind = .leaf .image ∨ p.kind = .closing .link ∧ EndsLink before

/-- What may become of tokens that stand behind `before`: links and images get another address, a
text may lose a fragment, and the same holds of the children of `inline` tokens. -/
inductive Kept : List Token → List Token → List Token → Prop
  | nil {before : List Token} : Kept before [] []
  | same {before ts ts' : List Token} (t : Token) (h : Kept (t :: before) ts ts') :
      Kept before (t :: ts) (t :: ts')
  | link {before ts ts' : List Token} {t : Token} (hk : t.kind = .opening .link) (href : Text)
      (h : Kept (t :: before) ts ts') : Kept before (t :: ts) ({ t with href } :: ts')
  | image {before ts ts' : List Token} {t : Token} (hk : t.kind = .leaf .image) (src : Text)
      (h : Kept (t :: before) ts ts') : Kept before (t :: ts) ({ t with src } :: ts')
  | text {before ts ts' : List Token} {t : Token} {content : Text} (hk : t.kind = .leaf .text)
      (hbefore : MayLose before) (hcontent : LosesFragment t.content content)
      (h : Kept (t :: before) ts ts') : Kept before (t :: ts) ({ t with content } :: ts')
  | inline {before ts ts' children : List Token} {t : Token} (hk : t.kind = .leaf .inline)
      (hchildren : Kept [] t.children children) (h : Kept (t :: before) ts ts') :
      Kept before (t :: ts) ({ t with children } :: ts')

variable {before after ts ts' : List Token} {t : Token} {takes : Bool}

theorem exists_of_takeFragment? {t fragment t' : Text}
    (h : takeFragment? t = some (fragment, t')) : ∃ rest, fragment ≠ [] ∧ '\x7d' ∉ fragment ∧
      t = '\x7b' :: (fragment ++ '\x7d' :: rest) ∧
      t' = if rest.head?.any isWordChar then ' ' :: rest else rest := by
  unfold takeFragment? at h
  split at h
  · next t =>
    split at h
    · next c inner d tail htake hdrop =>
      cases h
      obtain ⟨hsplit, hinner⟩ := Text.eq_of_dropWhile_ne hdrop
      rw [htake] at hsplit hinner
      exact ⟨tail, List.cons_ne_nil c inner, hinner, by rw [hsplit], rfl⟩
    · cases h
  · cases h

theorem losesFragment {t fragment rest : Text} (h : takeFragment? t = some (fragment, rest)) :
    LosesFragment t rest :=
  ⟨fragment, exists_of_takeFragment? h⟩

theorem kept_withoutFragment (hbefore : takes = true → MayLose before)
    (h : Kept (t :: before) ts ts') :
    Kept before (t :: ts) ((if takes then withoutFragment t else t) :: ts') := by
  unfold withoutFragment
  split_ifs with htakes hk
  · split
    · next fragment rest hfragment =>
      exact .text (beq_iff_eq.1 hk) (hbefore htakes) (losesFragment hfragment) h
    · exact .same t h
  · exact .same t h
  · exact .same t h

theorem kept_settle (hbefore : takes = true → MayLose before) (h : Kept (t :: before) ts ts') :
    Kept before (t :: ts) (settle takes t after :: ts') := by
  unfold settle
  split
  · next hk => exact .link hk _ h
  · next hk => exact .image hk _ h
  · exact kept_withoutFragment hbefore h

theorem mayLose_of_takesFragment {openLinks : Nat} (h : Enclosed openLinks before)
    (htakes : takesFragment openLinks t.kind = true) : MayLose (t :: before) := by
  unfold takesFragment at htakes
  split at htakes
  · next hk => exact .inl hk
  · next hk =>
    obtain ⟨n, rfl⟩ : ∃ n, openLinks = n + 1 := ⟨openLinks - 1, by simp at htakes; omega⟩
    exact .inr ⟨hk, h.endsLink⟩
  · cases htakes

end Changes

section Walks

/-- Tokens that a walk does not come to lose fragments only where links end that it has seen
begin. -/
theorem kept_abandon : ∀ (tokens : List Token) {before : List Token} {openLinks inner : Nat}
    {takes : Bool}, Enclosed (openLinks + inner) before → (takes = true → MayLose before) →
      Kept before tokens (abandon openLinks inner takes tokens)
  | [], _, _, _, _, _, _ => .nil
  | t :: rest, before, openLinks, inner, takes, h, hbefore => by
    have hrest := @enclosed_cons _ _ t h
    have hkept : ∀ {ts' : List Token}, Kept (t :: before) rest ts' →
        Kept before (t :: rest) ((if takes then withoutFragment t else t) :: ts') :=
      kept_withoutFragment hbefore
    have hkind := kind_ite_withoutFragment takes t
    rw [abandon]
    generalize (if takes then withoutFragment t else t) = u at hkept hkind ⊢
    rw [← hkind] at hrest
    split
    · next hk =>
      rw [hk] at hrest
      exact hkept (kept_abandon rest hrest nofun)
    · next hk =>
      rw [hk] at hrest
      split_ifs with hinner
      · refine hkept (kept_abandon rest ?_ nofun)
        rwa [← Nat.add_sub_assoc hinner]
      · obtain rfl : inner = 0 := Nat.eq_zero_of_not_pos hinner
        refine hkept (kept_abandon rest hrest fun htakes => ?_)
        exact mayLose_of_takesFragment h (by rw [← hkind, hk]; exact htakes)
    · next hopening hclosing =>
      rw [linksAfter_of_ne hopening hclosing] at hrest
      exact hkept (kept_abandon rest hrest nofun)

/-- A walk keeps its tokens as they are but for addresses and fragments, whether it stops or not. -/
theorem kept_walk (setting : Setting) (tokens : List Token) : ∀ {orig : List Token} (state : State)
    (before : List Token) {openLinks : Nat} {takes : Bool}, Enclosed openLinks orig →
      (takes = true → MayLose orig) →
        Kept orig tokens (walk setting state before openLinks takes tokens).tokens := by
  induction tokens using walk_induction with
  | nil =>
    intro orig state before openLinks takes _ _
    rw [walk_nil]
    exact .nil
  | leaf t after ht ih =>
    intro orig state before openLinks takes h hbefore
    have hrest := @enclosed_cons _ _ t h
    have hkind := kind_settle takes t after
    rcases step_cases setting state before after openLinks takes ht with
      ⟨name, -, -, hstep⟩ | ⟨-, hstep⟩
    · rw [walk_cons_of_stopped hstep, hkind]
      exact kept_settle hbefore (kept_abandon after hrest nofun)
    · rw [walk_cons hstep rfl, hkind]
      exact kept_settle hbefore (ih _ _ hrest (mayLose_of_takesFragment h))
  | inline t after ht hchildren ih =>
    intro orig state before openLinks takes h hbefore
    have hrest : Enclosed openLinks (t :: orig) := by
      have hlinks := @enclosed_cons _ _ t h
      rwa [ht] at hlinks
    have hinner := @hchildren [] state [] 0 false trivial nofun
    generalize hw : walk setting state [] 0 false t.children = w at hinner
    cases hinside : w.stopped with
    | some name =>
      rw [walk_cons_inline_of_stopped ht hw hinside]
      exact .inline ht hinner (kept_abandon after hrest nofun)
    | none =>
      rw [walk_cons_inline ht hw hinside rfl]
      exact .inline ht hinner (ih _ _ hrest nofun)

end Walks

/-- Whether it succeeds or fails, a rendering leaves the tokens as they were but for the addresses
of links and images and a fragment at the start of a text that follows one. -/
theorem kept_render (options : Options) (tokens : List Token) :
    Kept [] tokens (render options tokens).tokens :=
  kept_walk (.ofOptions options) tokens {} [] trivial nofun

end TidyMark.Render
