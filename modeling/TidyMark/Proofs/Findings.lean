import Mathlib.Data.List.DropRight
import Mathlib.Data.List.Infix
import TidyMark.Proofs.Visits

/-!
# What a rendering reports

The report is put together while links and images still get their addresses and texts lose their
fragments. In the end it says what the tokens say that the rendering has left (`report_render`): a
visit to each of them, in order, finds the links, the images and the badges of the report
(`Report.ofVisits`). One token adds what is found at it (`report_rule`), and so does a walk
(`report_walk`).
-/

namespace TidyMark

namespace Text

theorem startsWith_iff : ∀ {p t : Text}, startsWith p t = true ↔ p <+: t
  | [], t => by simp [startsWith, strip?]
  | c :: p, [] => by simp [startsWith, strip?]
  | c :: p, d :: t => by
    have ih : startsWith p t = true ↔ p <+: t := startsWith_iff
    rw [List.cons_prefix_cons, ← ih]
    unfold startsWith
    rw [strip?]
    split_ifs with h
    · simp [beq_iff_eq.1 h]
    · simpa using fun he => absurd (beq_iff_eq.2 he) h

theorem includes_iff {p : Text} : ∀ {t : Text}, includes p t = true ↔ p <:+: t
  | [] => by simp [includes]
  | c :: t => by
    rw [includes, Bool.or_eq_true, startsWith_iff, includes_iff, List.infix_cons_iff]

end Text

def Report.append (r s : Report) : Report :=
  ⟨r.links ++ s.links, r.images ++ s.images, r.badges ++ s.badges⟩

namespace Render

section Extensions

/-- An address without what stands behind its last dot, if that is the extension of an image, and
without the dot. -/
def withoutExtension (src : Text) : Text :=
  if '.' ∈ src ∧ isImageExtension (src.rtakeWhile (· != '.')) = true then
    (src.rdropWhile (· != '.')).dropLast
  else src

theorem dot_not_mem {e : Text} (h : isImageExtension e = true) : '.' ∉ e := by
  intro hdot
  obtain ⟨known, hknown, he⟩ := List.any_eq_true.1 h
  obtain ⟨hlength, hall⟩ := Bool.and_eq_true_iff.1 he
  obtain ⟨k, hk, hget⟩ := List.mem_iff_getElem.1 hdot
  have hk' : k < known.length := by rwa [beq_iff_eq.1 hlength]
  have hsame := List.all_eq_true.1 hall (e[k], known[k])
    (List.mem_iff_getElem.2 ⟨k, by rw [List.length_zip]; omega, by simp⟩)
  have hletter : ∀ known ∈ imageExtensions, ∀ d ∈ known, sameUpToCase '.' d = false := by
    simp [imageExtensions, sameUpToCase]
  rw [hget] at hsame
  exact absurd hsame (Bool.eq_false_iff.1 (hletter known hknown _ (List.getElem_mem hk')))

theorem withoutExtension_of_not_mem {src : Text} (h : '.' ∉ src) : withoutExtension src = src :=
  if_neg fun hsrc => h hsrc.1

theorem withoutExtension_append (base : Text) {e : Text} (h : '.' ∉ e) :
    withoutExtension (base ++ '.' :: e) =
      if isImageExtension e then base else base ++ '.' :: e := by
  have hother : '.' ∉ e.reverse := fun hdot => h (List.mem_reverse.1 hdot)
  have hreverse : (base ++ '.' :: e).reverse = e.reverse ++ '.' :: base.reverse := by simp
  have htake : List.rtakeWhile (· != '.') (base ++ '.' :: e) = e := by
    rw [List.rtakeWhile, hreverse, Text.takeWhile_ne_append hother, List.reverse_reverse]
  have hdrop : List.rdropWhile (· != '.') (base ++ '.' :: e) = base ++ ['.'] := by
    rw [List.rdropWhile, hreverse, Text.dropWhile_ne_append hother]
    simp
  rw [withoutExtension, htake, hdrop]
  simp

theorem stripImageExtension_eq : ∀ src : Text, stripImageExtension src = withoutExtension src
  | [] => rfl
  | c :: src => by
    have ih := stripImageExtension_eq src
    rw [stripImageExtension, ih]
    by_cases hdot : '.' ∈ src
    · have hext : isImageExtension src = false :=
        Bool.eq_false_iff.2 fun hsrc => dot_not_mem hsrc hdot
      obtain ⟨e, base, hsplit, he⟩ := List.eq_append_cons_of_mem (List.mem_reverse.2 hdot)
      have hsrc : src = base.reverse ++ '.' :: e.reverse := by
        rw [← List.reverse_reverse src, hsplit]
        simp
      have he' : '.' ∉ e.reverse := fun hmem => he (List.mem_reverse.1 hmem)
      rw [hext, hsrc, withoutExtension_append _ he', ← List.cons_append,
        withoutExtension_append _ he', Bool.and_false, if_neg Bool.false_ne_true]
      split_ifs <;> rfl
    · rw [withoutExtension_of_not_mem hdot]
      by_cases hc : c = '.'
      · rw [hc]
        simpa using (withoutExtension_append [] hdot).symm
      · have hcons : '.' ∉ c :: src := fun hmem =>
          (List.mem_cons.1 hmem).elim (fun he => hc he.symm) hdot
        rw [withoutExtension_of_not_mem hcons]
        simp [hc]

end Extensions

section Visiting

/-- The link that a link token stands for, unless it is the image behind the token that writes it. -/
def Visit.link? (v : Visit) : Option Link :=
  if v.token.kind = .opening .link ∧ following? v.after ≠ some (.leaf .image) then
    some ⟨v.token.href, v.token.title⟩
  else none

/-- The link that begins directly before. -/
def Visit.linkBefore? (v : Visit) : Option Token :=
  match v.before with
  | p :: _ => if p.kind = .opening .link then some p else none
  | [] => none

/-- The badge that an image is, if a link begins directly before it or its address has the word in
it. It leads where the link leads, or to its own address. -/
def Visit.badge? (v : Visit) : Option Badge :=
  if v.token.kind = .leaf .image then
    match v.linkBefore? with
    | some link =>
      some ⟨v.token.alt, v.token.src, if link.href = [] then v.token.src else link.href⟩
    | none =>
      if ("badge" : Text) <:+: v.token.src then
        some ⟨v.token.alt, v.token.src, withoutExtension v.token.src⟩
      else none
  else none

/-- The image that an image token stands for, if it is no badge. -/
def Visit.image? (v : Visit) : Option Image :=
  if v.token.kind = .leaf .image ∧ v.badge? = none then
    some ⟨v.token.alt, v.token.src, v.token.title⟩
  else none

end Visiting

end Render

/-- What the tokens that are visited say about themselves. -/
def Report.ofVisits (vs : List Render.Visit) : Report :=
  ⟨vs.filterMap (·.link?), vs.filterMap (·.image?), vs.filterMap (·.badge?)⟩

theorem Report.append_empty (r : Report) : r.append {} = r := by
  simp [append]

theorem Report.append_assoc (r s t : Report) : (r.append s).append t = r.append (s.append t) := by
  simp [append]

theorem Report.ofVisits_append (vs vs' : List Render.Visit) :
    ofVisits (vs ++ vs') = (ofVisits vs).append (ofVisits vs') := by
  simp [ofVisits, append]

theorem Report.ofVisits_cons (v : Render.Visit) (vs : List Render.Visit) :
    ofVisits (v :: vs) = (ofVisits [v]).append (ofVisits vs) :=
  ofVisits_append [v] vs

namespace Render

section Reports

variable {setting : Setting} {state : State} {s : Sight}

theorem link?_of_ne {v : Visit} (hl : v.token.kind ≠ .opening .link) : v.link? = none :=
  if_neg fun h => hl h.1

theorem badge?_of_ne {v : Visit} (hi : v.token.kind ≠ .leaf .image) : v.badge? = none :=
  if_neg hi

theorem image?_of_ne {v : Visit} (hi : v.token.kind ≠ .leaf .image) : v.image? = none :=
  if_neg fun h => hi h.1

/-- Nothing is found at a token that is neither a link nor an image. -/
theorem ofVisits_single {v : Visit} (hl : v.token.kind ≠ .opening .link)
    (hi : v.token.kind ≠ .leaf .image) : Report.ofVisits [v] = {} := by
  simp [Report.ofVisits, link?_of_ne hl, badge?_of_ne hi, image?_of_ne hi]

theorem report_openRule {c : Construct} (hc : c ≠ .link) :
    (openRule setting state s c).1.report = state.report := by
  cases c with
  | link => exact absurd rfl hc
  | listItem =>
    rw [openRule, listItemOpen]
    split
    · split_ifs <;> rfl
    · rfl
  | _ => rfl

theorem report_closeRule (c : Construct) : (closeRule state s c).1.report = state.report := by
  cases c with
  | link =>
    rw [closeRule, linkClose]
    split <;> rfl
  | _ => rfl

theorem report_leafRule {l : Leaf} (hl : l ≠ .image) :
    (leafRule setting state s l).1.report = state.report := by
  cases l with
  | image => exact absurd rfl hl
  | _ => rfl

theorem report_linkOpen : (linkOpen state s).1.report =
    if following? s.after = some (.leaf .image) then state.report
    else state.report.addLink ⟨s.token.href, s.token.title⟩ := by
  obtain ⟨before, ⟨kind, content, children, level, href, src, title, alt, align, headingLevel, tight,
    block, params, id, subId⟩, after, openLinks⟩ := s
  simp only [linkOpen, beq_iff_eq]
  split_ifs <;> rfl

theorem report_image : (image state s).1.report =
    match badgeHref? s with
    | some href => state.report.addBadge ⟨s.token.alt, s.token.src, href⟩
    | none => state.report.addImage ⟨s.token.alt, s.token.src, s.token.title⟩ := by
  obtain ⟨before, ⟨kind, content, children, level, href, src, title, alt, align, headingLevel, tight,
    block, params, id, subId⟩, after, openLinks⟩ := s
  simp only [image]
  generalize badgeHref? _ = href
  cases href <;> rfl

theorem ofVisits_link {v : Visit} (hk : v.token.kind = .opening .link) : Report.ofVisits [v] =
    if following? v.after = some (.leaf .image) then {}
    else { links := [⟨v.token.href, v.token.title⟩] } := by
  have hi : v.token.kind ≠ .leaf .image := by simp [hk]
  split_ifs with h <;>
    simp [Report.ofVisits, Visit.link?, badge?_of_ne hi, image?_of_ne hi, hk, h]

theorem badge?_eq (hk : s.token.kind = .leaf .image) (after : List Token) :
    Visit.badge? ⟨s.before, s.token, after⟩ =
      (badgeHref? s).map fun href => ⟨s.token.alt, s.token.src, href⟩ := by
  obtain ⟨before, token, _, _⟩ := s
  rw [Visit.badge?, if_pos hk]
  simp only [Visit.linkBefore?, badgeHref?, ← Text.includes_iff, stripImageExtension_eq]
  rcases before with _ | ⟨p, before⟩
  · dsimp only
    split_ifs <;> rfl
  · by_cases hp : p.kind = .opening .link
    · simp [hp]
    · simp only [hp, if_false, beq_iff_eq]
      split_ifs <;> rfl

theorem ofVisits_image {v : Visit} (hk : v.token.kind = .leaf .image) : Report.ofVisits [v] =
    match v.badge? with
    | some badge => { badges := [badge] }
    | none => { images := [⟨v.token.alt, v.token.src, v.token.title⟩] } := by
  cases h : v.badge? <;> simp [Report.ofVisits, Visit.link?, Visit.image?, hk, h]

/-- A rule adds what is found at its token to the report. -/
theorem report_rule {after : List Token} (h : following? after = following? s.after) :
    (rule setting state s).1.report =
      state.report.append (.ofVisits [⟨s.before, s.token, after⟩]) := by
  have hother (hl : s.token.kind ≠ .opening .link) (hi : s.token.kind ≠ .leaf .image)
      (hreport : (rule setting state s).1.report = state.report) : (rule setting state s).1.report =
        state.report.append (.ofVisits [⟨s.before, s.token, after⟩]) := by
    rw [ofVisits_single hl hi, Report.append_empty, hreport]
  cases hk : s.token.kind with
  | opening c =>
    by_cases hc : c = .link
    · subst hc
      have hlink : (rule setting state s).1 = (linkOpen state s).1 :=
        congrArg Prod.fst (rule_opening hk)
      rw [hlink, report_linkOpen, ofVisits_link hk, h]
      split_ifs
      · rw [Report.append_empty]
      · simp [Report.append, Report.addLink]
    · exact hother (by simpa [hk] using hc) (by simp [hk])
        (by rw [rule_opening hk, report_openRule hc])
  | closing c =>
    exact hother (by simp [hk]) (by simp [hk]) (by rw [rule_closing hk, report_closeRule c])
  | leaf l =>
    by_cases hl : l = .image
    · subst hl
      have himage : (rule setting state s).1 = (image state s).1 := congrArg Prod.fst (rule_leaf hk)
      rw [himage, report_image, ofVisits_image hk, badge?_eq hk after]
      cases badgeHref? s <;> simp [Report.append, Report.addBadge, Report.addImage]
    · exact hother (by simp [hk]) (by simpa [hk] using hl) (by rw [rule_leaf hk, report_leafRule hl])
  | unknown name => exact hother (by simp [hk]) (by simp [hk]) (by rw [rule, hk])

end Reports

section Walks

variable (setting : Setting) (state : State) (before : List Token) (openLinks : Nat) (takes : Bool)

theorem following?_walk (tokens : List Token) :
    following? (walk setting state before openLinks takes tokens).tokens = following? tokens := by
  cases tokens with
  | nil => rw [walk_nil]
  | cons t after =>
    have hkind := kind_step setting state before after openLinks takes t
    rw [walk]
    split <;> exact congrArg some hkind

/-- A walk that does not stop adds what is found at the tokens that it leaves. -/
theorem report_walk (tokens : List Token) : ∀ (state : State) (before : List Token)
    (openLinks : Nat) (takes : Bool),
      (walk setting state before openLinks takes tokens).stopped = none →
        (walk setting state before openLinks takes tokens).state.report = state.report.append
          (.ofVisits (visits before (walk setting state before openLinks takes tokens).tokens)) := by
  induction tokens using walk_induction with
  | nil =>
    intro state before openLinks takes _
    rw [walk_nil, visits_nil]
    exact (Report.append_empty state.report).symm
  | leaf t after ht ih =>
    intro state before openLinks takes hstop
    rcases step_cases setting state before after openLinks takes ht with
      ⟨name, -, -, hstep⟩ | ⟨-, hstep⟩
    · rw [walk_cons_of_stopped hstep] at hstop
      cases hstop
    · rw [walk_cons hstep rfl] at hstop ⊢
      have hkind : (settle takes t after).kind ≠ .leaf .inline := by rwa [kind_settle]
      rw [visits_cons_leaf hkind, Report.ofVisits_cons, ih _ _ _ _ hstop, report_rule
        (following?_walk setting _ _ _ _ after), Report.append_assoc]
  | inline t after ht hchildren ih =>
    intro state before openLinks takes hstop
    have hinner := hchildren state [] 0 false
    generalize hw : walk setting state [] 0 false t.children = w at hinner
    cases hinside : w.stopped with
    | some name =>
      rw [walk_cons_inline_of_stopped ht hw hinside] at hstop
      cases hstop
    | none =>
      obtain ⟨t', ht', hkind, htokens⟩ : ∃ t', { t with children := w.tokens } = t' ∧
        t'.kind = .leaf .inline ∧ t'.children = w.tokens := ⟨_, rfl, ht, rfl⟩
      rw [walk_cons_inline ht hw hinside rfl, ht'] at hstop ⊢
      have hnothing : ∀ after', Report.ofVisits [⟨before, t', after'⟩] = {} := fun after' =>
        ofVisits_single (by simp [hkind]) (by simp [hkind])
      rw [visits_cons_inline hkind, Report.ofVisits_cons, hnothing, Report.ofVisits_append, htokens,
        ih _ _ _ _ hstop, hinner hinside, Report.append_assoc]
      rfl

end Walks

section Renderings

theorem stopped_of_conclude {options : Options} {w : Walk} {r : Rendered}
    (h : conclude options w = .ok r) : w.stopped = none ∧ r.report = w.state.report := by
  unfold conclude at h
  split at h
  · cases h
  · split at h
    · cases h
    · next hstop =>
      split at h
      · cases h
      · cases h
        exact ⟨hstop, rfl⟩

/-- An image token is an image of the report or a badge of it, and not both. -/
theorem length_images_add_length_badges (vs : List Visit) :
    (Report.ofVisits vs).images.length + (Report.ofVisits vs).badges.length =
      (vs.filter fun v => v.token.kind = .leaf .image).length := by
  induction vs with
  | nil => rfl
  | cons v vs ih =>
    rw [Report.ofVisits_cons]
    by_cases hk : v.token.kind = .leaf .image
    · rw [ofVisits_image hk, List.filter_cons_of_pos (by simpa using hk)]
      cases v.badge? <;> simp [Report.append] <;> omega
    · have hnone : Report.ofVisits [v] = ⟨(Report.ofVisits [v]).links, [], []⟩ := by
        simp [Report.ofVisits, badge?_of_ne hk, image?_of_ne hk]
      rw [hnone, List.filter_cons_of_neg (by simpa using hk)]
      simpa [Report.append] using ih

end Renderings

/-- The report of a rendering is what a visit to the tokens that it leaves finds, and there is one
image or badge for each image token. -/
theorem report_render {options : Options} {tokens : List Token} {r : Rendered}
    (h : (render options tokens).result = .ok r) :
    r.report = .ofVisits (visits [] (render options tokens).tokens) ∧
      r.report.images.length + r.report.badges.length =
        ((visits [] (render options tokens).tokens).filter
          fun v => v.token.kind = .leaf .image).length := by
  have hreport : r.report = .ofVisits (visits [] (render options tokens).tokens) := by
    obtain ⟨hstop, hreport⟩ := stopped_of_conclude h
    exact hreport.trans (report_walk _ tokens {} [] 0 false hstop)
  refine ⟨hreport, ?_⟩
  rw [hreport]
  exact length_images_add_length_badges _

/-- The fragment behind the link belongs to its address, in the badge as well. -/
theorem report_render_badge_in_link :
    let tokens : List Token := [Token.inline [{ kind := .opening .link, href := "u" },
      { kind := .leaf .image, alt := "a", src := "b.svg" }, { kind := .closing .link },
      { content := "\x7b#f\x7d" }, { kind := .leaf .image, alt := "c", src := "badge.PNG" }]]
    ∃ r, (render {} tokens).result = .ok r ∧
      Report.ofVisits (visits [] (render {} tokens).tokens) =
        { badges := [⟨"a", "b.svg", "u#f"⟩, ⟨"c", "badge.PNG", "badge"⟩] } ∧
      r.report = .ofVisits (visits [] (render {} tokens).tokens) := by
  intro tokens
  obtain ⟨r, hr⟩ : ∃ r, (render {} tokens).result = .ok r := ⟨_, rfl⟩
  exact ⟨r, hr, by decide +kernel, (report_render hr).1⟩

end Render

end TidyMark
