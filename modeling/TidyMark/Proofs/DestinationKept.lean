import TidyMark.Proofs.Foremost
import TidyMark.Proofs.ReadBack
import TidyMark.Proofs.TameDocuments
import TidyMark.Proofs.Writable

/-!
# Destinations read back

A paragraph of one link or image is written as one line: a bracket, the text, and the destination
in parentheses. When the line is read again, all depends on what is read behind the closing bracket.
If that is the destination with nothing behind it, the link comes back (`tokenize_bracketLine`);
if it is anything else, the line begins with other content, and that stays first whatever follows
(`exists_of_tokenize_bracketLine`). So the link comes back if and only if its destination is
writable (`tokenize_render_linked_iff`), which the destinations that a source can give are not all
(`not_forall_tokenize_render_linked`).
-/

namespace TidyMark

namespace Markdown

/-- A link or an image. -/
def Inline.linked (image : Bool) (url title : Text) (content : List Inline) : Inline :=
  if image then .image url title content else .link url title content

/-- How a link or an image is written: `after` is what stands behind its closing bracket. -/
def bracketLine (image : Bool) (t after : Text) : Text :=
  opening image ++ (t ++ ']' :: after)

section Reading

variable {image : Bool} {t after tail url title : Text} {c d : Char}

theorem isSpecial_of_not_isSpecial (h : isSpecial false c = false) (inBrackets : Bool) :
    isSpecial inBrackets c = false := by
  unfold isSpecial
  split
  all_goals first
    | rfl
    | exact absurd h (by decide)

theorem ne_of_not_isSpecial (h : isSpecial false c = false) (hd : isSpecial false d = true) :
    c ≠ d := by
  rintro rfl
  rw [h] at hd
  cases hd

/-- The reader behind an opening bracket and the text after it. -/
def bracketed (image : Bool) (t after : Text) : Reader :=
  { pieces := (word t).map Piece.node
    brackets := [{ image, after := t ++ ']' :: after, before := [] }]
    noLinks := image
    inBrackets := true }

theorem resolve_word (t : Text) : Piece.resolve ((word t).map Piece.node).reverse = word t := by
  unfold word
  split_ifs <;> rfl

variable (image) (ht : ∀ c ∈ t, isSpecial false c = false)

include ht

theorem read_opening (after : Text) : ∃ before,
    ({} : Reader).read {} [] 0 (bracketLine image t after) =
      (bracketed image t after).read {} before 0 (']' :: after) := by
  have hopen : ∃ before, ({} : Reader).read {} [] 0 (bracketLine image t after) =
      (({} : Reader).openBracket image (t ++ ']' :: after)).read {} before 0
        (t ++ ']' :: after) := by
    cases image with
    | false => exact ⟨_, read_of_step (s := []) rfl⟩
    | true =>
      have hnote : (t ++ ']' :: after).head? ≠ some '^' := by
        rcases t with _ | ⟨c, t⟩
        · simp
        · simpa using ne_of_not_isSpecial (ht c List.mem_cons_self) rfl
      have hstep : ({} : Reader).step {} [] '!' (['['] ++ (t ++ ']' :: after)) =
          (2, ({} : Reader).openBracket true (t ++ ']' :: after)) := by
        unfold Reader.step
        simpa [isSpecial] using hnote
      exact ⟨_, read_of_step hstep⟩
  obtain ⟨before, hopen⟩ := hopen
  have hclose : ∀ d ∈ (']' :: after).head?, isSpecial true d = true ∧ d ≠ '\n' := by
    rintro d ⟨⟩
    decide
  have htext := read_text (r := ({} : Reader).openBracket image (t ++ ']' :: after)) {}
    (fun c hc => isSpecial_of_not_isSpecial (ht c hc) true)
    (fun _ h => List.cons_ne_nil _ _ h.symm) hclose before
  have hpieces : (word t).map Piece.node ++ [] = (word t).map Piece.node := List.append_nil _
  refine ⟨t.reverse ++ before, hopen.trans (htext.trans ?_)⟩
  exact congrArg (fun pieces => ({ bracketed image t after with pieces } : Reader).read {}
    (t.reverse ++ before) 0 (']' :: after)) hpieces

theorem footnoteName?_word : footnoteName? ((word t).map Piece.node).reverse = none := by
  rcases t with _ | ⟨c, t⟩
  · rfl
  · have hc : c ≠ '^' := ne_of_not_isSpecial (ht c List.mem_cons_self) rfl
    have hword : ((word (c :: t)).map Piece.node).reverse = [.node (.text (c :: t))] := rfl
    rw [hword, footnoteName?]
    simp [Piece.literal?, hc]

/-- What a closing bracket makes of the text before it depends on what stands behind it. -/
theorem closeBracket_bracketed (after : Text) : ∃ r n,
    closeBracket {} (bracketed image t after) after = (n, r) ∧
      ((∃ url title tail, inlineTarget? after = some (url, title, tail) ∧
          n = after.length - tail.length + 1 ∧ r.brackets = [] ∧
          r.pieces = [.node (.linked image url title (word t))]) ∨
        inlineTarget? after = none ∧ r.StartsWith (.text (opening image))) := by
  have hnolink : (!image && image) = false := by cases image <;> rfl
  have hnote := footnoteName?_word ht
  rcases htarget : inlineTarget? after with _ | ⟨url, title, tail⟩
  · have hclose : closeBracket {} (bracketed image t after) after =
        (1, ({ bracketed image t after with inBrackets := false } : Reader).giveUp
          { image, after := t ++ ']' :: after, before := [] } []) := by
      simp [closeBracket, bracketed, hnolink, htarget, referenceTarget?_eq_none, hnote]
    refine ⟨_, _, hclose, .inr ⟨rfl, ?_⟩⟩
    have hpieces : (({ bracketed image t after with inBrackets := false } : Reader).giveUp
        { image, after := t ++ ']' :: after, before := [] } []).pieces =
          (.node (.text [']']) :: (bracketed image t after).pieces) ++
            [.node (.text (opening image))] := rfl
    unfold Reader.StartsWith Reader.outermost
    rw [hpieces]
    exact List.getLast?_concat
  · have hclose : closeBracket {} (bracketed image t after) after =
        (after.length - tail.length + 1, { bracketed image t after with
          pieces := [.node (.linked image url title (word t))]
          brackets := []
          noLinks := image || !image
          inBrackets := false }) := by
      simp [closeBracket, bracketed, hnolink, htarget, resolve_word, Inline.linked, Nat.add_comm]
    exact ⟨_, _, hclose, .inl ⟨url, title, tail, rfl, rfl, rfl, rfl⟩⟩

/-- What is read of a line that is all brackets and a destination. -/
theorem finish_read_bracketLine (h : inlineTarget? after = some (url, title, [])) :
    (({} : Reader).read {} [] 0 (bracketLine image t after)).finish =
      [.linked image url title (word t)] := by
  obtain ⟨before, hread⟩ := read_opening image ht after
  obtain ⟨r, n, hclose, ⟨url', title', tail, htarget, hn, hbrackets, hpieces⟩ | ⟨hnone, -⟩⟩ :=
    closeBracket_bracketed image ht after
  · rw [h] at htarget
    cases htarget
    have hstep : (bracketed image t after).step {} before ']' (after ++ []) =
        (after.length + 1, r) := by
      rw [List.append_nil, step_close, hclose, hn]
      rfl
    have hrest := read_of_step hstep
    rw [List.append_nil] at hrest
    rw [hread, hrest, Reader.read, Reader.finish, hbrackets, hpieces]
    rfl
  · rw [h] at hnone
    cases hnone

/-- What a line with brackets and something behind them begins with when it is read. -/
theorem head?_finish_read_bracketLine (after : Text) :
    (∃ url title tail, inlineTarget? after = some (url, title, tail) ∧
      (({} : Reader).read {} [] 0 (bracketLine image t after)).finish.head? =
        some (.linked image url title (word t))) ∨
    (({} : Reader).read {} [] 0 (bracketLine image t after)).finish.head? =
      some (.text (opening image)) := by
  obtain ⟨before, hread⟩ := read_opening image ht after
  obtain ⟨r, n, hclose, hcases⟩ := closeBracket_bracketed image ht after
  have hrest : (bracketed image t after).read {} before 0 (']' :: after) =
      r.read {} (']' :: before) (n - 1) after := by
    rw [Reader.read, step_close, hclose]
  rw [hread, hrest]
  rcases hcases with ⟨url, title, tail, htarget, -, hbrackets, hpieces⟩ | ⟨-, hstart⟩
  · have hstart : r.StartsWith (.linked image url title (word t)) := by
      unfold Reader.StartsWith Reader.outermost
      rw [hbrackets, hpieces]
      rfl
    exact .inl ⟨url, title, tail, htarget, (hstart.read {} _ _ after).head?_finish⟩
  · exact .inr (hstart.read {} _ _ after).head?_finish

end Reading

section Lines

variable {image : Bool} {t u : Text}

/-- A label without marks ends at its closing bracket. -/
theorem eq_of_labelRest? {after label rest : Text} : ∀ {t : Text} {used : Nat},
    (∀ c ∈ t, isSpecial false c = false) →
      labelRest? used false (t ++ ']' :: after) = some (label, rest) → rest = after
  | [], used, _, h => by
    cases h
    rfl
  | c :: t, used, ht, h => by
    obtain ⟨hc, ht⟩ := List.forall_mem_cons.1 ht
    have h1 : c ≠ ']' := ne_of_not_isSpecial hc rfl
    have h2 : c ≠ '\\' := ne_of_not_isSpecial hc rfl
    have hnext : escapesNext c (t ++ ']' :: after) = false := by simp [escapesNext, h2]
    rw [List.cons_append, labelRest?, hnext] at h
    split_ifs at h with hclose
    · simp [h1] at hclose
    · obtain ⟨⟨label', rest'⟩, hrest, heq⟩ := Option.map_eq_some_iff.1 h
      cases heq
      exact eq_of_labelRest? ht hrest

theorem read?_bracketLine (ht : ∀ c ∈ t, isSpecial false c = false) (after : Text) :
    ({} : Definitions).read? ('[' :: (t ++ ']' :: '(' :: after)) = none := by
  rcases hlabel : label? ('[' :: (t ++ ']' :: '(' :: after)) with _ | ⟨label, rest⟩
  · rw [Definitions.read?, hlabel]
    rfl
  · obtain ⟨⟨label', rest'⟩, hrest, heq⟩ := Option.map_eq_some_iff.1 hlabel
    cases heq
    obtain rfl := eq_of_labelRest? ht hrest
    have hcolon : Text.strip? [':'] ('(' :: after) = none := rfl
    rw [Definitions.read?, hlabel]
    simp [hcolon]

theorem getLast?_bracketLine (image : Bool) (t u : Text) :
    (bracketLine image t ('(' :: (u ++ [')']))).getLast? = some ')' := by
  have hend : bracketLine image t ('(' :: (u ++ [')'])) =
      (opening image ++ (t ++ ']' :: '(' :: u)) ++ [')'] := by
    simp [bracketLine]
  rw [hend, List.getLast?_concat]

theorem ofText_bracketLine (image : Bool) (t u : Text) :
    Inline.ofText {} (bracketLine image t ('(' :: (u ++ [')'])) ++ ['\n']) =
      (({} : Reader).read {} [] 0 (bracketLine image t ('(' :: (u ++ [')'])))).finish := by
  rw [Inline.ofText, trimSpaceEnd_line]
  intro c hc
  rw [getLast?_bracketLine] at hc
  cases hc
  decide

variable (image) (ht : ∀ c ∈ t, isSpecial false c = false)
  (hline : ∀ c ∈ t ++ u, c ≠ '\n' ∧ c ≠ '\r' ∧ c.toNat ≠ 0)

include ht hline

/-- A line of brackets with parentheses behind them is a paragraph. -/
theorem isLoneLine_bracketLine : IsLoneLine (bracketLine image t ('(' :: (u ++ [')']))) := by
  have hmem : ∀ c ∈ bracketLine image t ('(' :: (u ++ [')'])),
      c ≠ '\n' ∧ c ≠ '\r' ∧ c.toNat ≠ 0 := by
    have hmarks : ∀ c ∈ "![]()".toList, c ≠ '\n' ∧ c ≠ '\r' ∧ c.toNat ≠ 0 := by simp
    have hopening : ∀ c ∈ opening image, c ∈ "![]()".toList := by cases image <;> simp [opening]
    intro c hc
    simp only [bracketLine, List.mem_append, List.mem_cons, List.not_mem_nil, or_false] at hc
    rcases hc with hc | hc | rfl | rfl | hc | rfl
    · exact hmarks c (hopening c hc)
    · exact hline c (List.mem_append_left u hc)
    · exact hmarks _ (by decide)
    · exact hmarks _ (by decide)
    · exact hline c (List.mem_append_right t hc)
    · exact hmarks _ (by decide)
  have hnote : footnoteLabel? ('[' :: (t ++ ']' :: '(' :: (u ++ [')']))) = none := by
    rcases t with _ | ⟨c, t⟩
    · rfl
    · have hc : c ≠ '^' := ne_of_not_isSpecial (ht c List.mem_cons_self) rfl
      simp [footnoteLabel?, hc]
  cases image with
  | false =>
    refine ⟨beginsNone_cons (by decide) (by decide) (by decide) rfl hnote false, ?_, hmem, ?_⟩
    · rintro c ⟨⟩
      decide
    · have hread := read?_bracketLine ht (u ++ [')'] ++ ['\n'])
      simpa [bracketLine, opening] using hread
  | true =>
    refine ⟨beginsNone_cons (by decide) (by decide) (by decide) rfl rfl false, ?_, hmem, rfl⟩
    rintro c ⟨⟩
    decide

end Lines

section Numbering

/-- A paragraph by itself defines no footnotes, so it stays with its content numbered. -/
theorem ofBlocks_paragraph (xs : List Inline) :
    Document.ofBlocks [.paragraph xs] = ⟨[.paragraph (numberInlines ⟨[], 0⟩ xs).1], []⟩ := by
  have hnumber : numberBlocks ⟨[], 0⟩ [.paragraph xs] =
      ([.paragraph (numberInlines ⟨[], 0⟩ xs).1], ⟨[], 0⟩) := by
    simp only [numberBlocks, Block.number, numberInlines_of_nothing]
  rw [Document.ofBlocks]
  simp only [footnotesOf, Block.footnotes, List.append_nil, definitionsOf, List.foldl_nil, hnumber,
    withoutFootnotes, Block.withoutFootnotes?]
  rfl

theorem numberInlines_word (n : Numbering) (t : Text) : numberInlines n (word t) = (word t, n) := by
  unfold word
  split_ifs <;> rfl

theorem number_linked (n : Numbering) (image : Bool) (url title t : Text) :
    (Inline.linked image url title (word t)).number n = (.linked image url title (word t), n) := by
  cases image <;> simp [Inline.linked, Inline.number, numberInlines_word]

end Numbering

end Markdown

namespace Token

open Markdown

variable {image : Bool} {url url' title title' : Text} {xs ys zs : List Inline}

theorem paragraphAt_inj (h : paragraphAt 0 false xs = paragraphAt 0 false ys) :
    ofInlines [] xs = ofInlines [] ys := by
  have hchildren := congrArg (fun ts : List Token => ts.flatMap (·.children)) h
  simpa [paragraphAt, enclose, inlineAt, leafAt, inline] using hchildren

theorem kind_consText (t : Text) (after : List Token) :
    (consText t after).head?.map (·.kind) = some (.leaf .text) := by
  unfold consText
  split
  · split_ifs with hk
    · simpa using hk
    · rfl
  · rfl

theorem ofInlines_linked_cons (image : Bool) (url title : Text) (xs ys : List Inline) :
    ∃ t rest, ofInlines [] (.linked image url title xs :: ys) = t :: rest ∧
      t.kind = (if image then .leaf .image else .opening .link) ∧ t.title = title ∧
      (if image then t.src else t.href) = url := by
  cases image with
  | false => exact ⟨_, _, rfl, rfl, rfl, rfl⟩
  | true => exact ⟨_, _, rfl, rfl, rfl, rfl⟩

theorem eq_of_ofInlines_linked
    (h : ofInlines [] (.linked image url title xs :: ys) =
      ofInlines [] [.linked image url' title' zs]) :
    url = url' ∧ title = title' := by
  obtain ⟨t, rest, ht, -, htitle, hurl⟩ := ofInlines_linked_cons image url title xs ys
  obtain ⟨t', rest', ht', -, htitle', hurl'⟩ := ofInlines_linked_cons image url' title' zs []
  rw [ht, ht'] at h
  obtain rfl := (List.cons.inj h).1
  exact ⟨hurl.symm.trans hurl', htitle.symm.trans htitle'⟩

theorem ofInlines_text_ne_linked (t : Text) :
    ofInlines [] (.text t :: ys) ≠ ofInlines [] [.linked image url title zs] := by
  intro h
  obtain ⟨u, rest, hu, hkind, -⟩ := ofInlines_linked_cons image url title zs []
  have htext : (ofInlines [] (.text t :: ys)).head?.map (·.kind) = some (.leaf .text) :=
    kind_consText t _
  rw [h, hu, List.head?_cons, Option.map_some, hkind] at htext
  cases image <;> cases htext

end Token

section Tokenizing

open Markdown

variable {image : Bool} {t u ending url title : Text} (ht : ∀ c ∈ t, isSpecial false c = false)
  (hline : ∀ c ∈ t ++ u, c ≠ '\n' ∧ c ≠ '\r' ∧ c.toNat ≠ 0) (he : ending = [] ∨ ending = ['\n'])

include ht hline he

/-- A link is read from a line that holds nothing else. -/
theorem tokenize_bracketLine (h : inlineTarget? ('(' :: (u ++ [')'])) = some (url, title, [])) :
    tokenize (bracketLine image t ('(' :: (u ++ [')'])) ++ ending) =
      Token.paragraphAt 0 false [.linked image url title (word t)] := by
  rw [tokenize_of_isLoneLine (isLoneLine_bracketLine image ht hline) he (ofBlocks_paragraph _),
    ofText_bracketLine, finish_read_bracketLine image ht h, numberInlines, number_linked]
  rfl

/-- A line from which a link is read holds its destination behind the bracket. -/
theorem exists_of_tokenize_bracketLine
    (h : tokenize (bracketLine image t ('(' :: (u ++ [')'])) ++ ending) =
      Token.paragraphAt 0 false [.linked image url title (word t)]) :
    ∃ tail, inlineTarget? ('(' :: (u ++ [')'])) = some (url, title, tail) := by
  rw [tokenize_of_isLoneLine (isLoneLine_bracketLine image ht hline) he (ofBlocks_paragraph _),
    ofText_bracketLine] at h
  have htokens := Token.paragraphAt_inj h
  rcases head?_finish_read_bracketLine image ht ('(' :: (u ++ [')'])) with
    ⟨url', title', tail, htarget, hhead⟩ | hhead
  · obtain ⟨xs, hxs⟩ := List.head?_eq_some_iff.1 hhead
    rw [hxs, numberInlines, number_linked] at htokens
    obtain ⟨rfl, rfl⟩ := Token.eq_of_ofInlines_linked htokens
    exact ⟨tail, htarget⟩
  · obtain ⟨xs, hxs⟩ := List.head?_eq_some_iff.1 hhead
    rw [hxs, numberInlines] at htokens
    exact absurd htokens (Token.ofInlines_text_ne_linked _)

end Tokenizing

namespace Render

open Markdown

variable {t href title : Text}

/-- Text without marks needs no escapes. -/
theorem escape_of_not_isSpecial (ht : ∀ c ∈ t, isSpecial false c = false) :
    Escape.escape false t = t := by
  have hplain : ∀ c ∈ t, c ∉ Escape.escapable := fun c hc hmem => by
    have hspecial : isSpecial false c = true := isSpecial_of_mem_escapable hmem
    rw [ht c hc] at hspecial
    cases hspecial
  have happend := Escape.inLine_append [] hplain []
  simpa [Escape.inLine, Escape.escape, Escape.escapeFrom] using happend

/-- A link with nothing before it opens with a bracket, and its target is kept for its end. -/
theorem step_opening_link {after : List Token} (hhref : href ≠ [])
    (hbraces : unwrapBraces href = href) (hfragment : linkFragment? after = none)
    (hnext : following? after ≠ some (.leaf .image)) :
    step (.ofOptions {}) {} [] after 0 false { kind := .opening .link, href, title } =
      ⟨{ links := [.link href title], report := ({} : Report).addLink ⟨href, title⟩ },
        { kind := .opening .link, href, title }, ['['], none⟩ := by
  have hempty : href.isEmpty = false := by simpa using hhref
  refine step_of_known (by simp) (by simp) ?_ ?_
  · simp only [settle, settleLink, hfragment, hempty, Bool.false_eq_true, if_false,
      Option.getD_none, List.append_nil, hbraces]
  · set o : Token := { kind := .opening .link, href, title } with ho
    have hcollides : collides ⟨[], o, after, 0⟩ = false := by simp [collides, hfragment]
    have hrule : rule (.ofOptions {}) {} ⟨[], o, after, 0⟩ = linkOpen {} ⟨[], o, after, 0⟩ := rfl
    rw [hrule, linkOpen, hcollides]
    simp [hnext, ho]

/-- A link is written as its text in brackets and its destination in parentheses. -/
theorem writes_link (ht : ∀ c ∈ t, isSpecial false c = false) (hhref : href ≠ [])
    (hbraces : unwrapBraces href = href) :
    Writes [] (Token.ofInlines [] [.linked false href title (word t)])
      (bracketLine false t ('(' :: (destination href title ++ [')']))) := by
  let o : Token := { kind := .opening .link, href, title }
  let c : Token := Token.ofKind (.closing .link)
  let opened : State :=
    { links := [.link href title], report := ({} : Report).addLink ⟨href, title⟩ }
  have hopen : ∀ after, linkFragment? after = none → following? after ≠ some (.leaf .image) →
      step (.ofOptions {}) {} [] after 0 false o = ⟨opened, o, ['['], none⟩ :=
    fun _ => step_opening_link hhref hbraces
  have hclose : ∀ before, step (.ofOptions {}) opened before [] 1 false c =
      ⟨{ opened with links := [] }, c, "](" ++ destination href title ++ ")", none⟩ :=
    fun before => step_of_known (by simp [c, Token.ofKind]) (by simp [c, Token.ofKind]) rfl rfl
  have htext : ∀ t, step (.ofOptions {}) opened [o] [c] 1 false { content := t } =
      ⟨opened, { content := t }, Escape.escape false t, none⟩ :=
    fun t => step_of_known (by simp) (by simp) rfl rfl
  have hend : ∀ before, walk (.ofOptions {}) opened before 1 false [c] =
      ⟨{ opened with links := [] }, [c], [⟨.plain, "](" ++ destination href title ++ ")"⟩], none⟩ :=
    fun before => walk_cons (hclose before) walk_nil
  rcases t with _ | ⟨d, t⟩
  · have htokens : Token.ofInlines [] [.linked false href title (word [])] = [o, c] := rfl
    have hnext : following? [c] ≠ some (.leaf .image) := by simp [following?, c, Token.ofKind]
    rw [Writes, htokens, walk_cons (hopen [c] rfl hnext) (hend [o])]
    refine ⟨rfl, ?_⟩
    simp [Walk.written, bracketLine, opening]
  · let b : Token := { content := d :: t }
    have htokens : Token.ofInlines [] [.linked false href title (word (d :: t))] = [o, b, c] := rfl
    have hnext : following? [b, c] ≠ some (.leaf .image) := by simp [following?, b]
    rw [Writes, htokens,
      walk_cons (hopen [b, c] rfl hnext) (walk_cons (htext (d :: t)) (hend [b, o]))]
    refine ⟨rfl, ?_⟩
    simp [Walk.written, bracketLine, opening, escape_of_not_isSpecial ht]

/-- An image is written as its text in brackets and its destination in parentheses. -/
theorem writes_image (hbraces : unwrapBraces href = href)
    (hbadge : Text.includes "badge" href = false) :
    Writes [] (Token.ofInlines [] [.linked true href title (word t)])
      (bracketLine true t ('(' :: (destination href title ++ [')']))) := by
  let i : Token := { kind := .leaf .image, src := href, title, alt := t }
  have halt : plainInlines (word t) = t := by
    cases t <;> simp [word, plainInlines, Inline.plain]
  have hstep : step (.ofOptions {}) {} [] [] 0 false i =
      ⟨{ report := ({} : Report).addImage ⟨t, href, title⟩ }, i,
        "![" ++ t ++ "](" ++ destination href title ++ ")", none⟩ := by
    have hsettle : settle false i [] = i := by
      simp only [settle, settleImage, fragmentOf?, i, Option.getD_none, List.append_nil, hbraces]
    refine step_of_known (by simp [i]) (by simp [i]) hsettle ?_
    have hrule : rule (.ofOptions {}) {} ⟨[], i, [], 0⟩ = image {} ⟨[], i, [], 0⟩ := rfl
    have hplain : badgeHref? ⟨[], i, [], 0⟩ = none := by
      rw [badgeHref?, hbadge]
      rfl
    rw [hrule, image, hplain]
  have htokens : Token.ofInlines [] [.linked true href title (word t)] = [i] := by
    have himage : Token.ofInlines [] [.linked true href title (word t)] =
        [{ i with alt := plainInlines (word t) }] := rfl
    rw [himage, halt]
  rw [Writes, htokens, walk_cons hstep walk_nil]
  refine ⟨rfl, ?_⟩
  simp [Walk.written, bracketLine, opening]

theorem render_linked (image : Bool) (ht : ∀ c ∈ t, isSpecial false c = false)
    (hhref : image = false → href ≠ []) (hbadge : image = true → Text.includes "badge" href = false)
    (hbraces : unwrapBraces href = href)
    (hline : ∀ c ∈ t ++ destination href title, c ≠ '\n' ∧ c ≠ '\r' ∧ c.toNat ≠ 0) :
    ∃ report, (render {} (Token.paragraphAt 0 false [.linked image href title (word t)])).result =
      .ok ⟨bracketLine image t ('(' :: (destination href title ++ [')'])) ++ ['\n'], report⟩ := by
  have hwrites : Writes [] (Token.ofInlines [] [.linked image href title (word t)])
      (bracketLine image t ('(' :: (destination href title ++ [')']))) := by
    cases image with
    | false => exact writes_link ht (hhref rfl) hbraces
    | true => exact writes_image hbraces (hbadge rfl)
  have hlone := isLoneLine_bracketLine image ht hline
  have hpolish := polish_append (t := ['\n', '\n'])
    (fun c hc => ⟨(hlone.one_line c hc).1, (hlone.one_line c hc).2.1⟩)
    (fun c hc => ?_) (fun c hc => ?_) (by decide)
  · have hrender := render_paragraphAt rfl hwrites.1
    rw [hwrites.2, hpolish] at hrender
    exact ⟨_, hrender⟩
  · obtain ⟨d, rest, hline, hd, -⟩ := hlone.none.head
    rw [hline] at hc
    cases hc
    exact hd
  · rw [getLast?_bracketLine] at hc
    cases hc
    decide

end Render

section ReadBack

open Markdown

/-- A link or an image, the text of which has no marks, is read back from what is written for it if
and only if its destination is writable. -/
theorem tokenize_render_linked_iff (image : Bool) {t href title : Text}
    (ht : ∀ c ∈ t, isSpecial false c = false) (hhref : image = false → href ≠ [])
    (hbadge : image = true → Text.includes "badge" href = false)
    (hbraces : Render.unwrapBraces href = href)
    (hline : ∀ c ∈ t ++ (href ++ title), c ≠ '\n' ∧ c ≠ '\r' ∧ c.toNat ≠ 0) :
    ∃ r, (render {} (Token.paragraphAt 0 false [.linked image href title (word t)])).result = .ok r ∧
      (tokenize r.text = Token.paragraphAt 0 false [.linked image href title (word t)] ↔
        IsWritable href title) := by
  have hwritten : ∀ c ∈ t ++ Render.destination href title, c ≠ '\n' ∧ c ≠ '\r' ∧ c.toNat ≠ 0 := by
    have hmarks : ∀ c ∈ " \\\"".toList, c ≠ '\n' ∧ c ≠ '\r' ∧ c.toNat ≠ 0 := by simp
    obtain ⟨ht, hparts⟩ := List.forall_mem_append.1 hline
    exact List.forall_mem_append.2 ⟨ht, fun c hc => (mem_destination hc).elim (hmarks c) (hparts c)⟩
  obtain ⟨report, hrender⟩ := Render.render_linked image ht hhref hbadge hbraces hwritten
  refine ⟨_, hrender, ?_⟩
  constructor
  · intro h
    obtain ⟨tail, htarget⟩ := exists_of_tokenize_bracketLine ht hwritten (.inr rfl) h
    exact (inlineTarget?_destination_iff.1 htarget).1
  · intro h
    exact tokenize_bracketLine ht hwritten (.inr rfl) (inlineTarget?_destination_iff.2 ⟨h, rfl⟩)

/-- A link with parentheses in its address and quotes in its title. -/
theorem tokenize_render_linked_quotes :
    (∀ c ∈ "a".toList, isSpecial false c = false) ∧ "b(c)".toList ≠ [] ∧
      Render.unwrapBraces "b(c)" = "b(c)".toList ∧
      (∀ c ∈ "a".toList ++ ("b(c)".toList ++ "d \"e\"".toList),
        c ≠ '\n' ∧ c ≠ '\r' ∧ c.toNat ≠ 0) ∧
      IsWritable "b(c)" "d \"e\"" ∧
      ∃ r, (render {} (Token.paragraphAt 0 false
          [.linked false "b(c)" "d \"e\"" (word "a")])).result = .ok r ∧
        tokenize r.text = Token.paragraphAt 0 false
          [.linked false "b(c)" "d \"e\"" (word "a")] := by
  have ht : ∀ c ∈ "a".toList, isSpecial false c = false := List.forall_mem_singleton.2 rfl
  have hline : ∀ c ∈ "a".toList ++ ("b(c)".toList ++ "d \"e\"".toList),
      c ≠ '\n' ∧ c ≠ '\r' ∧ c.toNat ≠ 0 := by simp
  have hwritable : IsWritable "b(c)" "d \"e\"" := by decide
  obtain ⟨r, hr, hiff⟩ := tokenize_render_linked_iff false ht (fun _ => by decide) nofun
    rfl hline
  exact ⟨ht, by decide, rfl, hline, hwritable, r, hr, hiff.2 hwritable⟩

/-- An address with a space in it stands in angle brackets, but is written without them. -/
theorem not_forall_tokenize_render_linked :
    ¬ ∀ source t href title : Text, href ≠ [] → Render.unwrapBraces href = href →
      tokenize source = Token.paragraphAt 0 false [.linked false href title (word t)] →
      ∃ r, (render {} (tokenize source)).result = .ok r ∧ tokenize r.text = tokenize source := by
  intro h
  have ht : ∀ c ∈ "a".toList, isSpecial false c = false := List.forall_mem_singleton.2 rfl
  have hline : ∀ c ∈ "a".toList ++ Render.destination "b c" [],
      c ≠ '\n' ∧ c ≠ '\r' ∧ c.toNat ≠ 0 := by simp [Render.destination]
  have hwritten : "[a](<b c>)".toList =
      bracketLine false "a" ('(' :: ("<b c>".toList ++ [')'])) ++ [] := by decide
  have hsource : tokenize "[a](<b c>)" =
      Token.paragraphAt 0 false [.linked false "b c" [] (word "a")] := by
    rw [hwritten]
    exact tokenize_bracketLine ht (by simp) (.inl rfl) (by decide)
  obtain ⟨r, hr, hback⟩ := h "[a](<b c>)" "a" "b c" [] (by decide) (by decide) hsource
  obtain ⟨report, hrender⟩ := Render.render_linked false ht (fun _ => by decide) nofun
    (by decide) hline
  rw [hsource] at hr hback
  obtain rfl := Except.ok.inj (hr.symm.trans hrender)
  obtain ⟨tail, htarget⟩ := exists_of_tokenize_bracketLine ht hline (.inr rfl) hback
  exact absurd ((inlineTarget?_destination_iff.1 htarget).1.no_end ' ' (by decide)) (by decide)

end ReadBack

end TidyMark
