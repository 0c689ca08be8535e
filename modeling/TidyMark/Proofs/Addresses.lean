import TidyMark.Proofs.Braces
import TidyMark.Proofs.Strictness
import TidyMark.Proofs.Touched

/-!
# Addresses that are rendered again

A rendering puts the fragment behind a link or an image into its address and takes the braces of
one group off it, and it leaves that address in the tokens. The next rendering meets the same
tokens at the same places (`Follows.reached`), and it leaves an address alone only if that had no
second group the first time and no second fragment behind it (`readdressed_render`).

Which fragment a link meets the second time is told by the tokens of the first: the walk takes
fragments only off the texts directly behind links and images, whether it goes on
(`afterLink?_walk`) or has stopped (`afterLink?_abandon`).
-/

namespace TidyMark.Render

/-- Whether a rendering comes to a token: a strict one stops at an unknown kind. -/
def comesTo (strict : Bool) (v : Visit) : Bool :=
  !(strict && (unknownName? v.token.kind).isSome)

/-- The tokens that a rendering comes to and those in them, in the order of the document. -/
def reached (strict : Bool) (tokens : List Token) : List Visit :=
  (visits [] tokens).takeWhile (comesTo strict)

/-- The address of a link before it loses braces: its own one, or the anchor that its text names,
and the fragment behind the link. -/
def linkAddress (t : Token) (after : List Token) : Text :=
  (if t.href.isEmpty then anchorOf after else t.href) ++ (linkFragment? after).getD []

/-- The address of an image before it loses braces. -/
def imageAddress (t : Token) (after : List Token) : Text :=
  t.src ++ (fragmentOf? after).getD []

/-- The fragment that the first of the tokens begins with when it has lost one. -/
def nextFragmentOf? : List Token → Option Text
  | t :: _ => fragmentOf? [withoutFragment t]
  | [] => none

/-- The fragment behind a link when the text there has lost one. -/
def nextLinkFragment? (after : List Token) : Option Text :=
  (afterLink? 0 after).bind nextFragmentOf?

/-- What becomes of the address of a token when it is rendered once and then once more. -/
structure Readdressed (v once twice : Visit) : Prop where
  kind : once.token.kind = v.token.kind
  link : v.token.kind = .opening .link →
    (HasGroup once.token.href ↔ LeavesGroup (linkAddress v.token v.after)) ∧
    (twice.token.href = once.token.href ↔
      ¬LeavesGroup (linkAddress v.token v.after) ∧ nextLinkFragment? v.after = none)
  image : v.token.kind = .leaf .image →
    (HasGroup once.token.src ↔ LeavesGroup (imageAddress v.token v.after)) ∧
    (twice.token.src = once.token.src ↔
      ¬LeavesGroup (imageAddress v.token v.after) ∧ nextFragmentOf? v.after = none)

section Heads

/-- Tokens of which only the first matters: its content is that of the other, without the fragment
if one is taken. -/
inductive Heads (takes : Bool) : List Token → List Token → Prop
  | nil : Heads takes [] []
  | cons {t t' : Token} {ts ts' : List Token} (hkind : t'.kind = t.kind)
    (hcontent : t'.content = (if takes then withoutFragment t else t).content) :
    Heads takes (t :: ts) (t' :: ts')

variable {ts ts' : List Token} {takes : Bool}

theorem fragmentOf?_of_heads (h : Heads true ts ts') : fragmentOf? ts' = nextFragmentOf? ts := by
  cases h with
  | nil => rfl
  | cons hkind hcontent =>
    rw [nextFragmentOf?, fragmentOf?, fragmentOf?, hkind, hcontent, kind_withoutFragment]
    rfl

theorem anchorOf_of_heads (h : Heads false ts ts') : anchorOf ts' = anchorOf ts := by
  cases h with
  | nil => rfl
  | cons hkind hcontent =>
    rw [anchorOf, anchorOf, hcontent]
    rfl

theorem ite_withoutFragment_of_ne {t : Token} (hk : t.kind ≠ .leaf .text) :
    (if takes then withoutFragment t else t) = t := by
  have hsame : withoutFragment t = t := if_neg (by simpa using hk)
  rw [hsame, ite_self]

theorem content_settle (t : Token) (after : List Token) :
    (settle takes t after).content = (if takes then withoutFragment t else t).content := by
  unfold settle
  split
  · next hk =>
    rw [ite_withoutFragment_of_ne (by simp [hk])]
    rfl
  · next hk =>
    rw [ite_withoutFragment_of_ne (by simp [hk])]
    rfl
  · rfl

theorem content_step (setting : Setting) (state : State) (before after : List Token)
    (openLinks : Nat) (takes : Bool) (t : Token) :
    (step setting state before after openLinks takes t).token.content =
      (if takes then withoutFragment t else t).content := by
  by_cases hk : t.kind = .leaf .inline
  · rw [step_inline hk rfl, ite_withoutFragment_of_ne (by simp [hk])]
  · rcases step_cases setting state before after openLinks takes hk with
      ⟨name, -, -, hstep⟩ | ⟨-, hstep⟩
    · rw [hstep]
      exact content_settle t after
    · rw [hstep]
      exact content_settle t after

theorem heads_walk (setting : Setting) (state : State) (before : List Token) (openLinks : Nat)
    (tokens : List Token) :
    Heads takes tokens (walk setting state before openLinks takes tokens).tokens := by
  cases tokens with
  | nil =>
    rw [walk_nil]
    exact .nil
  | cons t after =>
    have hkind := kind_step setting state before after openLinks takes t
    have hcontent := content_step setting state before after openLinks takes t
    rw [walk]
    dsimp only
    split
    · exact .cons hkind hcontent
    · exact .cons hkind hcontent

theorem heads_abandon (openLinks inner : Nat) (tokens : List Token) :
    Heads takes tokens (abandon openLinks inner takes tokens) := by
  cases tokens with
  | nil => exact .nil
  | cons t rest =>
    have hkind := kind_ite_withoutFragment takes t
    rw [abandon]
    generalize hu : (if takes then withoutFragment t else t) = u at hkind ⊢
    have hcontent : u.content = (if takes then withoutFragment t else t).content := by rw [hu]
    split
    · exact .cons hkind hcontent
    · split_ifs
      · exact .cons hkind hcontent
      · exact .cons hkind hcontent
    · exact .cons hkind hcontent

end Heads

section Fragments

variable {t t' : Token} {ts ts' : List Token} {d openLinks : Nat} {k : Kind}

theorem linksAfter_lt (h : d < openLinks) (hk : ¬(k = .closing .link ∧ d = 0)) :
    linksAfter d k < linksAfter openLinks k := by
  unfold linksAfter
  split
  · omega
  · have hd : d ≠ 0 := fun hd => hk ⟨rfl, hd⟩
    omega
  · exact h

theorem afterLink?_bind_cons (hkind : t'.kind = t.kind)
    (hend : t.kind = .closing .link → d = 0 → fragmentOf? ts' = nextFragmentOf? ts)
    (hrest : ¬(t.kind = .closing .link ∧ d = 0) →
      (afterLink? (linksAfter d t.kind) ts').bind fragmentOf? =
        (afterLink? (linksAfter d t.kind) ts).bind nextFragmentOf?) :
    (afterLink? d (t' :: ts')).bind fragmentOf? =
      (afterLink? d (t :: ts)).bind nextFragmentOf? := by
  rw [afterLink?_cons, afterLink?_cons, hkind]
  split_ifs with h
  · exact hend h.1 h.2
  · exact hrest h

/-- Behind a stop, the links that were open still take one fragment each. The link that is asked for
ends behind those that have opened since, and it is one of those that were open. -/
theorem afterLink?_abandon : ∀ (tokens : List Token) {openLinks inner d : Nat} {takes : Bool},
    inner ≤ d → d < openLinks + inner →
      (afterLink? d (abandon openLinks inner takes tokens)).bind fragmentOf? =
        (afterLink? d tokens).bind nextFragmentOf?
  | [], _, _, _, _, _, _ => rfl
  | t :: rest, openLinks, inner, d, takes, hinner, hd => by
    have hkind := kind_ite_withoutFragment takes t
    rw [abandon]
    generalize (if takes then withoutFragment t else t) = u at hkind ⊢
    split
    · next hk =>
      have hk : t.kind = .opening .link := hkind.symm.trans hk
      refine afterLink?_bind_cons hkind (by simp [hk]) fun _ => ?_
      rw [hk]
      exact afterLink?_abandon rest (Nat.succ_le_succ hinner) (Nat.succ_lt_succ hd)
    · next hk =>
      have hk : t.kind = .closing .link := hkind.symm.trans hk
      split_ifs with hopen
      · refine afterLink?_bind_cons hkind (fun _ hzero => by omega) fun _ => ?_
        rw [hk]
        exact afterLink?_abandon rest (Nat.sub_le_sub_right hinner 1) (by simp [linksAfter]; omega)
      -- No link has opened since, so this ends the innermost of those that were open.
      · have htakes : decide (0 < openLinks) = true := by simp; omega
        refine afterLink?_bind_cons hkind (fun _ _ => ?_) fun hsome => ?_
        · rw [htakes]
          exact fragmentOf?_of_heads (heads_abandon _ _ rest)
        · have hzero : d ≠ 0 := fun hzero => hsome ⟨hk, hzero⟩
          rw [hk]
          exact afterLink?_abandon rest (Nat.zero_le _) (by simp [linksAfter]; omega)
    · next hopening hclosing =>
      have hlinks : linksAfter d t.kind = d :=
        linksAfter_of_ne (hkind ▸ hopening) (hkind ▸ hclosing) d
      refine afterLink?_bind_cons hkind (fun h => absurd (hkind.trans h) hclosing) fun _ => ?_
      rw [hlinks]
      exact afterLink?_abandon rest hinner hd

/-- A link that is open takes one fragment off the text behind it. -/
theorem afterLink?_walk (setting : Setting) (tokens : List Token) : ∀ (state : State)
    (before : List Token) {openLinks d : Nat} {takes : Bool}, d < openLinks →
      (afterLink? d (walk setting state before openLinks takes tokens).tokens).bind fragmentOf? =
        (afterLink? d tokens).bind nextFragmentOf? := by
  induction tokens using walk_induction with
  | nil =>
    intro state before openLinks d takes _
    rw [walk_nil]
    rfl
  | leaf t after ht ih =>
    intro state before openLinks d takes hd
    have hkind := kind_settle takes t after
    rcases step_cases setting state before after openLinks takes ht with
      ⟨name, hname, -, hstep⟩ | ⟨-, hstep⟩
    · rw [walk_cons_of_stopped hstep, hkind, hname]
      refine afterLink?_bind_cons hkind (by simp [hname]) fun _ => ?_
      rw [hname]
      exact afterLink?_abandon after (Nat.zero_le d) hd
    · rw [walk_cons hstep rfl, hkind]
      refine afterLink?_bind_cons hkind (fun hk _ => ?_) fun hsome =>
        ih _ _ (linksAfter_lt hd hsome)
      have htakes : takesFragment openLinks t.kind = true := by simp [hk, takesFragment]; omega
      rw [htakes]
      exact fragmentOf?_of_heads (heads_walk setting _ _ _ after)
  | inline t after ht _ ih =>
    intro state before openLinks d takes hd
    have hlinks : linksAfter d t.kind = d := by rw [ht]; rfl
    generalize hw : walk setting state [] 0 false t.children = w
    cases hstop : w.stopped with
    | some name =>
      rw [walk_cons_inline_of_stopped ht hw hstop]
      refine afterLink?_bind_cons rfl (fun h => by simp [ht] at h) fun _ => ?_
      rw [hlinks]
      exact afterLink?_abandon after (Nat.zero_le d) hd
    | none =>
      rw [walk_cons_inline ht hw hstop rfl]
      refine afterLink?_bind_cons rfl (fun h => by simp [ht] at h) fun _ => ?_
      rw [hlinks]
      exact ih _ _ hd

end Fragments

section Walks

/-- What a rendering makes of a link or an image, and of the tokens behind it that its address goes
by. -/
structure Addressed (v v' : Visit) : Prop where
  kind : v'.token.kind = v.token.kind
  link : v.token.kind = .opening .link → v'.token = settleLink v.token v.after ∧
    anchorOf v'.after = anchorOf v.after ∧ linkFragment? v'.after = nextLinkFragment? v.after
  image : v.token.kind = .leaf .image → v'.token = settleImage v.token v.after ∧
    fragmentOf? v'.after = nextFragmentOf? v.after

/-- Tokens beside what a rendering makes of them, as far as it comes. If it has stopped, nothing is
said of what is behind the stop. -/
inductive Follows (strict : Bool) : Bool → List Visit → List Visit → Prop
  | nil : Follows strict false [] []
  | stop {v : Visit} {vs us : List Visit} (hv : comesTo strict v = false) :
    Follows strict true (v :: vs) us
  | cons {stopped : Bool} {v u : Visit} {vs us : List Visit} (hv : comesTo strict v = true)
    (h : Addressed v u) (hrest : Follows strict stopped vs us) :
    Follows strict stopped (v :: vs) (u :: us)

variable {strict stopped : Bool} {vs us vs' us' : List Visit}

theorem Follows.append (h : Follows strict false vs us) (h' : Follows strict stopped vs' us') :
    Follows strict stopped (vs ++ vs') (us ++ us') := by
  generalize hgoes : false = goes at h
  induction h with
  | nil => exact h'
  | stop => cases hgoes
  | cons hv h _ ih => exact .cons hv h (ih hgoes)

theorem Follows.append_of_stopped (h : Follows strict true vs us) (vs' us' : List Visit) :
    Follows strict true (vs ++ vs') (us ++ us') := by
  generalize hstops : true = stops at h ⊢
  induction h with
  | nil => cases hstops
  | stop hv => exact hstops ▸ .stop hv
  | cons hv h _ ih => exact .cons hv h (ih hstops)

/-- The next rendering comes to the same tokens. -/
theorem Follows.reached (h : Follows strict stopped vs us) {i : Nat} {v : Visit}
    (hv : (vs.takeWhile (comesTo strict))[i]? = some v) :
    ∃ u, (us.takeWhile (comesTo strict))[i]? = some u ∧ Addressed v u := by
  induction h generalizing i with
  | nil => cases hv
  | stop hstop =>
    rw [List.takeWhile_cons_of_neg (by simp [hstop])] at hv
    cases hv
  | @cons _ w u vs us hw h _ ih =>
    have hu : comesTo strict u = true := by rwa [comesTo, h.kind]
    rw [List.takeWhile_cons_of_pos hw] at hv
    rw [List.takeWhile_cons_of_pos hu]
    cases i with
    | zero =>
      obtain rfl : w = v := Option.some.inj hv
      exact ⟨u, rfl, h⟩
    | succ i => exact ih hv

theorem addressed_settle (setting : Setting) (state : State) {orig before before' : List Token}
    (openLinks : Nat) (takes : Bool) (t : Token) (after : List Token) :
    Addressed ⟨orig, t, after⟩ ⟨before, settle takes t after, (walk setting state before'
      (linksAfter openLinks t.kind) (takesFragment openLinks t.kind) after).tokens⟩ := by
  refine ⟨kind_settle takes t after, fun hk => ?_, fun hk => ?_⟩
  · dsimp only at hk ⊢
    rw [hk]
    refine ⟨by rw [settle, hk], anchorOf_of_heads (heads_walk setting state before' _ after), ?_⟩
    exact afterLink?_walk setting after state before' (Nat.succ_pos openLinks)
  · dsimp only at hk ⊢
    rw [hk]
    exact ⟨by rw [settle, hk], fragmentOf?_of_heads (heads_walk setting state before' _ after)⟩

/-- A walk comes to the tokens before a stop, and addresses each link and image by the tokens behind
it as they were. -/
theorem follows_walk (setting : Setting) (tokens : List Token) : ∀ (orig : List Token)
    (state : State) (before : List Token) (openLinks : Nat) (takes : Bool),
      Follows setting.options.strict
        (walk setting state before openLinks takes tokens).stopped.isSome (visits orig tokens)
        (visits before (walk setting state before openLinks takes tokens).tokens) := by
  induction tokens using walk_induction with
  | nil =>
    intro orig state before openLinks takes
    rw [walk_nil, visits_nil, visits_nil]
    exact .nil
  | leaf t after ht ih =>
    intro orig state before openLinks takes
    have hkind := kind_settle takes t after
    rw [visits_cons_leaf ht]
    rcases step_cases setting state before after openLinks takes ht with
      ⟨name, hname, hstrict, hstep⟩ | ⟨hknown, hstep⟩
    · rw [walk_cons_of_stopped hstep]
      exact .stop (by simp [comesTo, hstrict, hname, unknownName?])
    · have hcomes : comesTo setting.options.strict ⟨orig, t, after⟩ = true := by
        cases hname : unknownName? t.kind with
        | none => simp [comesTo, hname]
        | some name => simp [comesTo, hknown name (unknownName?_eq_some_iff.1 hname)]
      rw [walk_cons hstep rfl, visits_cons_leaf (hkind ▸ ht), hkind]
      exact .cons hcomes (addressed_settle setting _ openLinks takes t after) (ih _ _ _ _ _)
  | inline t after ht hchildren ih =>
    intro orig state before openLinks takes
    have hinner := hchildren [] state [] 0 false
    have hcomes : comesTo setting.options.strict ⟨orig, t, after⟩ = true := by
      simp [comesTo, ht, unknownName?]
    generalize hw : walk setting state [] 0 false t.children = w at hinner
    let u : Token := { t with children := w.tokens }
    have hu : u.kind = .leaf .inline := ht
    have haddressed : ∀ us, Addressed ⟨orig, t, after⟩ ⟨before, u, us⟩ := fun us =>
      ⟨rfl, fun h => by simp [ht] at h, fun h => by simp [ht] at h⟩
    rw [visits_cons_inline ht]
    cases hstop : w.stopped with
    | some name =>
      rw [hstop] at hinner
      rw [walk_cons_inline_of_stopped ht hw hstop]
      dsimp only
      rw [visits_cons_inline hu]
      exact .cons hcomes (haddressed _) (hinner.append_of_stopped _ _)
    | none =>
      rw [hstop] at hinner
      rw [walk_cons_inline ht hw hstop rfl]
      dsimp only
      rw [visits_cons_inline hu]
      exact .cons hcomes (haddressed _) (hinner.append (ih _ _ _ _ _))

end Walks

section Readdressing

theorem isFragment_of_fragmentOf? {ts : List Token} {fragment : Text}
    (h : fragmentOf? ts = some fragment) : fragment ≠ [] ∧ '\x7d' ∉ fragment := by
  cases ts with
  | nil => cases h
  | cons t ts =>
    rw [fragmentOf?] at h
    split_ifs at h
    obtain ⟨⟨fragment, t'⟩, htake, rfl⟩ := Option.map_eq_some_iff.1 h
    obtain ⟨-, hne, hclosed, -⟩ := exists_of_takeFragment? htake
    exact ⟨hne, hclosed⟩

theorem isFragment_of_linkFragment? {after : List Token} {fragment : Text}
    (h : linkFragment? after = some fragment) : fragment ≠ [] ∧ '\x7d' ∉ fragment := by
  obtain ⟨rest, -, hfragment⟩ := Option.bind_eq_some_iff.1 h
  exact isFragment_of_fragmentOf? hfragment

theorem unwrapBraces_fragment_eq_iff {t : Text} {fragment? : Option Text}
    (h : ∀ fragment, fragment? = some fragment → fragment ≠ [] ∧ '\x7d' ∉ fragment) :
    unwrapBraces (t ++ fragment?.getD []) = t ↔ ¬HasGroup t ∧ fragment? = none := by
  cases fragment? with
  | none =>
    rw [Option.getD_none, unwrapBraces_append_eq_iff List.not_mem_nil]
    simp
  | some fragment =>
    obtain ⟨hne, hclosed⟩ := h fragment rfl
    rw [Option.getD_some, unwrapBraces_append_eq_iff hclosed]
    simp [hne]

variable {v once twice : Visit}

/-- A link that has an address keeps it, and one that has none has found none. -/
theorem ownAddress_eq (h : Addressed v once) (hk : v.token.kind = .opening .link) :
    (if once.token.href.isEmpty then anchorOf once.after else once.token.href) =
      once.token.href := by
  obtain ⟨htoken, hanchor, -⟩ := h.link hk
  split_ifs with hempty
  · have hnil : once.token.href = [] := List.isEmpty_iff.1 hempty
    have haddress : linkAddress v.token v.after = [] := by
      rw [htoken] at hnil
      exact unwrapBraces_eq_nil_iff.1 hnil
    rw [linkAddress, List.append_eq_nil_iff] at haddress
    have hown := haddress.1
    split_ifs at hown with hhref
    · rw [hanchor, hown, hnil]
    · exact absurd (List.isEmpty_iff.2 hown) hhref
  · rfl

theorem readdressed_of_addressed (h : Addressed v once) (h' : Addressed once twice) :
    Readdressed v once twice := by
  refine ⟨h.kind, fun hk => ?_, fun hk => ?_⟩
  · obtain ⟨htoken, -, hfragment⟩ := h.link hk
    obtain ⟨htoken', -, -⟩ := h'.link (h.kind.trans hk)
    have hgroup : HasGroup once.token.href ↔ LeavesGroup (linkAddress v.token v.after) := by
      rw [htoken]
      exact hasGroup_unwrapBraces_iff
    have hagain : twice.token.href =
        unwrapBraces (once.token.href ++ (linkFragment? once.after).getD []) := by
      rw [htoken', settleLink, ownAddress_eq h hk]
    rw [hagain, unwrapBraces_fragment_eq_iff fun _ => isFragment_of_linkFragment?, hgroup,
      hfragment]
    exact ⟨Iff.rfl, Iff.rfl⟩
  · obtain ⟨htoken, hfragment⟩ := h.image hk
    obtain ⟨htoken', -⟩ := h'.image (h.kind.trans hk)
    have hgroup : HasGroup once.token.src ↔ LeavesGroup (imageAddress v.token v.after) := by
      rw [htoken]
      exact hasGroup_unwrapBraces_iff
    have hagain : twice.token.src =
        unwrapBraces (once.token.src ++ (fragmentOf? once.after).getD []) := by
      rw [htoken', settleImage]
    rw [hagain, unwrapBraces_fragment_eq_iff fun _ => isFragment_of_fragmentOf?, hgroup, hfragment]
    exact ⟨Iff.rfl, Iff.rfl⟩

end Readdressing

/-- Each link and each image that a rendering comes to is left with a group of braces in its address
if and only if the address, with the fragment behind it, has a group besides the first. The next
rendering comes to it again, and leaves its address as it is if and only if there is no such group
and the text behind it begins with no second fragment. -/
theorem readdressed_render (options : Options) (tokens : List Token) {i : Nat} {v : Visit}
    (hv : (reached options.strict tokens)[i]? = some v) :
    let once := (render options tokens).tokens
    let twice := (render options once).tokens
    ∃ v' v'', (reached options.strict once)[i]? = some v' ∧
      (reached options.strict twice)[i]? = some v'' ∧ Readdressed v v' v'' := by
  intro once twice
  obtain ⟨v', hv', h⟩ := (follows_walk (.ofOptions options) tokens [] {} [] 0 false).reached hv
  obtain ⟨v'', hv'', h'⟩ := (follows_walk (.ofOptions options) once [] {} [] 0 false).reached hv'
  exact ⟨v', v'', hv', hv'', readdressed_of_addressed h h'⟩

/-- The second of two groups is left in an address, and the second of two fragments behind an image
goes into its address the next time. -/
theorem readdressed_render_twoGroups :
    let tokens : List Token :=
      [{ kind := .opening .link, href := "\x7ba\x7d\x7bb\x7d" },
        { kind := .leaf .text, content := "t" }, { kind := .closing .link },
        { kind := .leaf .image, src := "c" },
        { kind := .leaf .text, content := "\x7bx\x7d\x7by\x7d" }]
    let once := (render {} tokens).tokens
    let twice := (render {} once).tokens
    (∃ v, (reached false once)[0]? = some v ∧ HasGroup v.token.href) ∧
      ∃ v v', (reached false once)[3]? = some v ∧ (reached false twice)[3]? = some v' ∧
        ¬HasGroup v.token.src ∧ v'.token.src ≠ v.token.src := by
  intro tokens once twice
  obtain ⟨link, _, hlink, -, hreadlink⟩ := readdressed_render {} tokens (i := 0) rfl
  obtain ⟨image, image', himage, himage', hreadimage⟩ := readdressed_render {} tokens (i := 3) rfl
  have hgroups : LeavesGroup "\x7ba\x7d\x7bb\x7d" :=
    ⟨_, "a", "\x7bb\x7d", List.suffix_refl _, ⟨rfl, by decide, by decide⟩,
      "\x7bb\x7d", "b", [], List.suffix_append ['a'] _, ⟨rfl, by decide, by decide⟩⟩
  have hnone : ¬LeavesGroup "cx" := fun h => absurd (closing_mem_of_hasGroup h.hasGroup) (by decide)
  refine ⟨⟨link, hlink, (hreadlink.link rfl).1.2 hgroups⟩, image, image', himage, himage', ?_, ?_⟩
  · exact mt (hreadimage.image rfl).1.1 hnone
  · exact fun h => absurd ((hreadimage.image rfl).2.1 h).2 (by decide)

/-- An address with two groups in braces is left with one. -/
theorem not_forall_not_hasGroup_render :
    ¬ ∀ (options : Options) (tokens : List Token),
      ∀ v ∈ reached options.strict (render options tokens).tokens,
        v.token.kind = .opening .link → ¬HasGroup v.token.href := by
  intro h
  let tokens : List Token :=
    [{ kind := .opening .link, href := "\x7ba\x7d\x7bb\x7d" },
      { kind := .leaf .text, content := "t" }, { kind := .closing .link }]
  refine h {} tokens _ List.mem_cons_self rfl ?_
  exact ⟨"\x7bb\x7d", "b", [], List.suffix_append ['a'] _, rfl, by decide, by decide⟩

end TidyMark.Render
