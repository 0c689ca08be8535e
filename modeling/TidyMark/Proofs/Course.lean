import TidyMark.Proofs.Cover

/-!
# The course of reading escaped text

While an escaped text is read, the pieces that have been read stand for the text so far and the
scans of what is left find nothing (`Course`). Open brackets set pieces aside; what is known of them
is known of the text since each bracket (`Regions`). What is read next keeps the course
(`Advances`): an escaped mark, a stretch of text, a run of tildes or carets, an opening bracket, and
a closing one, which is text or makes a footnote reference that stands for itself.
-/

namespace TidyMark

namespace Markdown

open Escape

section Pieces

/-- The text that pieces stand for, the last piece of which comes first. -/
def spelling (pieces : List Piece) : Text :=
  pieces.reverse.flatMap (·.inline.spelled)

@[simp] theorem spelling_nil : spelling [] = [] :=
  rfl

@[simp] theorem spelling_cons (p : Piece) (ps : List Piece) :
    spelling (p :: ps) = spelling ps ++ p.inline.spelled := by
  simp [spelling]

@[simp] theorem spelling_append (ps qs : List Piece) :
    spelling (ps ++ qs) = spelling qs ++ spelling ps := by
  simp [spelling]

/-- What has been read, the last piece first, if no open bracket makes anything. -/
def Reader.merged (r : Reader) : List Piece :=
  r.brackets.foldl Reader.merge r.pieces

theorem foldl_merge_append : ∀ (brackets : List OpenBracket) (ps qs : List Piece),
    brackets.foldl Reader.merge (ps ++ qs) = ps ++ brackets.foldl Reader.merge qs
  | [], _, _ => rfl
  | b :: brackets, ps, qs => by
    rw [List.foldl_cons, List.foldl_cons, ← foldl_merge_append, Reader.merge, Reader.merge,
      List.append_assoc]

/-- What is known of the text since each open bracket, of which `rest` has not been read: whether it
begins like a footnote reference. If it does, it is all text. -/
def Regions (rest : Text) : List Piece → List OpenBracket → List Bool → Prop
  | _, [], [] => True
  | ps, b :: brackets, note :: notes =>
    ((spelling ps ++ rest).head? = some '^' ↔ note = true) ∧
      (note = true → b.image = false ∧ ∀ p ∈ ps, p.isText = true) ∧
      Regions rest (Reader.merge ps b) brackets notes
  | _, _, _ => False

/-- Other pieces can take the place of some if the text is the same and they are text where a
footnote reference may have begun. -/
theorem Regions.congr {rest rest' : Text} : ∀ {brackets : List OpenBracket} {notes : List Bool}
    {ps ps' : List Piece}, Regions rest ps brackets notes →
    spelling ps' ++ rest' = spelling ps ++ rest →
    (true ∈ notes → (∀ p ∈ ps, p.isText = true) → ∀ p ∈ ps', p.isText = true) →
      Regions rest' ps' brackets notes
  | [], [], ps, ps', _, _, _ => trivial
  | b :: brackets, note :: notes, ps, ps', ⟨hhead, hnote, hrest⟩, hs, htext => by
    refine ⟨by rw [hs]; exact hhead, fun hn => ?_, hrest.congr ?_ fun hn hall p hp => ?_⟩
    · obtain ⟨himage, hall⟩ := hnote hn
      exact ⟨himage, htext (hn ▸ List.mem_cons_self) hall⟩
    · simp only [Reader.merge, spelling_append, spelling_cons, List.append_assoc, hs]
    · have hps : ∀ p ∈ ps, p.isText = true := fun p hp => hall p (List.mem_append_left _ hp)
      rcases List.mem_append.1 hp with hp | hp
      · exact htext (List.mem_cons_of_mem note hn) hps p hp
      · exact hall p (List.mem_append_right _ hp)

end Pieces

/-- What is known of pieces that have been read of a text `t` before `rest`, the last one first:
they are literal content, and the runs among them and the `later` ones do not match. -/
structure Told (t : Text) (pieces : List Piece) (rest : Text) (later : List Run) : Prop where
  literal : ∀ p ∈ pieces, p.inline.isLiteral = true
  counts : ∀ run ∈ pieces.filterMap Piece.run?, 0 < run.count
  spelled : spelling pieces ++ rest = t
  apart : (pieces.reverse.filterMap Piece.run? ++ later).Pairwise Run.Apart

theorem Told.push {t s rest : Text} {pieces : List Piece} {p : Piece} {later : List Run}
    (h : Told t pieces (s ++ rest) (p.run?.toList ++ later)) (hp : p.inline.isLiteral = true)
    (hs : p.inline.spelled = s) (hcount : ∀ run ∈ p.run?, 0 < run.count) :
    Told t (p :: pieces) rest later where
  literal := List.forall_mem_cons.2 ⟨hp, h.literal⟩
  counts run hrun := by
    rw [List.filterMap_cons] at hrun
    rcases hr : p.run? with _ | run' <;> simp only [hr] at hrun
    · exact h.counts run hrun
    · rcases List.mem_cons.1 hrun with rfl | hrun
      · exact hcount run hr
      · exact h.counts run hrun
  spelled := by
    rw [spelling_cons, hs, List.append_assoc]
    exact h.spelled
  apart := by
    have hone : [p].filterMap Piece.run? = p.run?.toList := by
      rcases hr : p.run? with _ | run <;> simp [hr]
    rw [List.reverse_cons, List.filterMap_append, hone, List.append_assoc]
    exact h.apart

/-- The course of reading a text `t` that is escaped: the text `done`, in reverse, has been read
from `before` as literal content, and the scans of `rest` find nothing. -/
structure Course (t : Text) (notes : List Bool) (r : Reader) (before done rest : Text) : Prop where
  told : Told t r.merged rest (delimiters r.inBrackets done rest)
  regions : Regions rest r.pieces r.brackets notes
  flanked : flank before = flank done
  fresh : ∀ c, isDelimiter r.inBrackets c = true → rest.head? = some c → done.head? ≠ some c
  one_line : '\n' ∉ rest
  reads : misreads done.head? rest = false
  brackets : misreadsBracket notes rest = false

/-- What is read next takes some of the text that is left and stays on course. -/
def Advances (t : Text) (r : Reader) (before done rest : Text) : Prop :=
  ∃ notes r' before' done' rest', rest'.length < rest.length ∧
    Course t notes r' before' done' rest' ∧
    r.read {} before 0 (inLine done.head? rest) = r'.read {} before' 0 (inLine done'.head? rest')

section Steps

variable {t : Text} {notes : List Bool} {r r' : Reader} {before before' done s rest : Text}
  {c : Char}

theorem read_of_step {w : Text} (h : r.step {} before c (s ++ w) = (s.length + 1, r')) :
    r.read {} before 0 (c :: (s ++ w)) = r'.read {} (s.reverse ++ c :: before) 0 w := by
  rw [Reader.read, h]
  exact read_skip {} r' (c :: before) s w

theorem isLiteral_of_isText {p : Piece} (hp : p.isText = true) : p.inline.isLiteral = true := by
  rcases p with x | run
  · cases x
    case text => rfl
    all_goals cases hp
  · rfl

/-- A piece of text that is added to what has been read keeps the course. -/
theorem Course.push (h : Course t notes r before done (s ++ rest)) {p : Piece}
    (hp : p.isText = true) (hs : p.inline.spelled = s) (hcount : ∀ run ∈ p.run?, 0 < run.count)
    (hflank : flank before' = flank (s.reverse ++ done))
    (hfresh : ∀ c, isDelimiter r.inBrackets c = true → rest.head? = some c →
      (s.reverse ++ done).head? ≠ some c)
    (hbrackets : misreadsBracket notes rest = false)
    (hruns : delimiters r.inBrackets done (s ++ rest) =
      p.run?.toList ++ delimiters r.inBrackets (s.reverse ++ done) rest) :
    Course t notes { r with pieces := p :: r.pieces } before' (s.reverse ++ done) rest := by
  have hmerged : ({ r with pieces := p :: r.pieces } : Reader).merged = p :: r.merged :=
    foldl_merge_append r.brackets [p] r.pieces
  refine ⟨?_, h.regions.congr ?_ ?_, hflank, hfresh,
    fun hm => h.one_line (List.mem_append_right s hm), misreads_append done h.reads, hbrackets⟩
  · rw [hmerged]
    exact (hruns ▸ h.told).push (isLiteral_of_isText hp) hs hcount
  · rw [spelling_cons, hs, List.append_assoc]
  · exact fun _ hall => List.forall_mem_cons.2 ⟨hp, hall⟩

/-- The first characters are added as text if the scans pass over them. -/
theorem Course.addText (h : Course t notes r before done (c :: s ++ rest))
    (hs : ∀ d ∈ c :: s, isDelimiter r.inBrackets d = false)
    (hflank : flank before' = flank ((c :: s).reverse ++ done))
    (hbrackets : misreadsBracket notes rest = false)
    (hruns : delimiters r.inBrackets done (c :: s ++ rest) =
      delimiters r.inBrackets ((c :: s).reverse ++ done) rest) :
    Course t notes (r.add (.text (c :: s))) before' ((c :: s).reverse ++ done) rest := by
  refine h.push rfl rfl (by simp [Piece.run?]) hflank (fun d hd _ hlast => ?_) hbrackets hruns
  rw [List.head?_append_of_ne_nil _ (by simp)] at hlast
  have hin : d ∈ c :: s := List.mem_reverse.1 (List.mem_of_mem_head? hlast)
  rw [hs d hin] at hd
  cases hd

/-- Reading the first character as text stays on course, if it is neither a bracket that counts nor
a delimiter. -/
theorem Course.advances (h : Course t notes r before done (c :: rest)) (w : Text)
    (hstep : r.read {} before 0 (inLine done.head? (c :: rest)) =
      (r.add (.text [c])).read {} (c :: w) 0 (inLine (some c) rest))
    (hd : isDelimiter r.inBrackets c = false) (hclose : c ≠ ']')
    (hopen : c = '[' → opensLink rest = true) (htilde : c ≠ '~') :
    Advances t r before done (c :: rest) := by
  have hcourse : Course t notes (r.add (.text [c])) (c :: w) (c :: done) rest := by
    refine h.addText (s := []) (List.forall_mem_singleton.2 hd) ?_ ?_
      (delimiters_cons hd hclose hopen)
    · rw [flank_cons htilde]
      exact (flank_cons htilde done).symm
    · rw [← misreadsBracket_cons hclose hopen]
      exact h.brackets
  exact ⟨notes, _, _, _, rest, by simp, hcourse, hstep⟩

/-- Behind its backslash a character is text. -/
theorem advances_escaped (h : Course t notes r before done (c :: rest))
    (he : needsEscape .plain 0 done.head? c rest = true) :
    Advances t r before done (c :: rest) := by
  have hmem := mem_escapable he
  have hmarks : escapable.all (fun c => isAsciiPunctuation c && c != '~' && c != ']' &&
      !isDelimiter true c && !isDelimiter false c) = true := by decide
  have hmark := List.all_eq_true.1 hmarks c hmem
  simp only [Bool.and_eq_true, Bool.not_eq_true', bne_iff_ne] at hmark
  obtain ⟨⟨⟨⟨hpunctuation, htilde⟩, hclose⟩, hd⟩, hd'⟩ := hmark
  have hdelimiter : isDelimiter r.inBrackets c = false := by
    cases r.inBrackets
    · exact hd'
    · exact hd
  have hopen : c = '[' → opensLink rest = true := by
    rintro rfl
    simpa [needsEscape] using he
  have hstep : r.step {} before '\\' ([c] ++ inLine (some c) rest) = (2, r.add (.text [c])) := by
    unfold Reader.step
    simp [isSpecial, readBackslash, hpunctuation]
  refine h.advances ('\\' :: before) ?_ hdelimiter hclose hopen htilde
  rw [inLine_cons, if_pos he]
  exact read_of_step hstep

/-- A character that stays and is read alone is text. -/
theorem advances_alone (h : Course t notes r before done (c :: rest))
    (he : needsEscape .plain 0 done.head? c rest = false)
    (hstep : r.step {} before c (inLine (some c) rest) = (1, r.add (.text [c])))
    (hd : isDelimiter r.inBrackets c = false) (hclose : c ≠ ']') (hopen : c ≠ '[')
    (htilde : c ≠ '~') : Advances t r before done (c :: rest) := by
  refine h.advances before ?_ hd hclose (fun hc => absurd hc hopen) htilde
  rw [inLine_cons_of_not he]
  exact read_of_step (s := []) hstep

theorem isSpecial_of_isDelimiter {inBrackets : Bool} (hc : isDelimiter inBrackets c = true) :
    isSpecial inBrackets c = true := by
  simp only [isDelimiter, Bool.or_eq_true, Bool.and_eq_true, beq_iff_eq] at hc
  rcases hc with rfl | ⟨rfl, hb⟩
  · rfl
  · exact hb

theorem isSpecial_of_mem_escapable {inBrackets : Bool} (hc : c ∈ escapable) :
    isSpecial inBrackets c = true := by
  have hmarks : ∀ b, escapable.all (isSpecial b) = true := by decide
  exact List.all_eq_true.1 (hmarks inBrackets) c hc

theorem head?_pieces_ne (h : Course t notes r before done rest) (pieces : List Piece) :
    r.pieces ≠ .node .lineBreak :: pieces := by
  intro he
  have hmerged : r.merged = .node .lineBreak :: r.brackets.foldl Reader.merge pieces := by
    rw [Reader.merged, he]
    exact foldl_merge_append r.brackets [_] pieces
  have hl := h.told.literal (.node .lineBreak) (by rw [hmerged]; exact List.mem_cons_self)
  cases hl

/-- A special character is one, or becomes a backslash, when it is escaped. -/
theorem isSpecial_head?_inLine {inBrackets : Bool}
    (hrest : ∀ d ∈ rest.head?, isSpecial inBrackets d = true) (prev : Option Char) :
    ∀ d ∈ (inLine prev rest).head?, isSpecial inBrackets d = true := by
  intro d hd
  rcases head?_inLine prev rest with he | ⟨he, -⟩
  · exact hrest d (he ▸ hd)
  · rw [he] at hd
    cases hd
    rfl

/-- Characters of which none is ever escaped, and that are read in one step. -/
theorem Course.advances_plain {rest' : Text} (hplain : ∀ d ∈ c :: s, d ∉ escapable)
    (hstep : r.step {} before c (s ++ inLine ((c :: s).reverse ++ done).head? rest') =
      (s.length + 1, r'))
    (h : Course t notes r' ((c :: s).reverse ++ before) ((c :: s).reverse ++ done) rest') :
    Advances t r before done (c :: (s ++ rest')) := by
  refine ⟨notes, _, _, _, rest', by simp only [List.length_cons, List.length_append]; omega, h, ?_⟩
  have hwritten := inLine_append done hplain rest'
  have hbefore : s.reverse ++ c :: before = (c :: s).reverse ++ before := by simp
  have hread := read_of_step hstep
  rw [hbefore] at hread
  rw [List.cons_append] at hwritten
  rw [hwritten]
  exact hread

/-- Characters that are not special are read as one text. -/
theorem advances_text (h : Course t notes r before done (c :: rest))
    (hc : isSpecial r.inBrackets c = false) : Advances t r before done (c :: rest) := by
  obtain ⟨s, rest', rfl, hs, hrest⟩ : ∃ s rest', rest = s ++ rest' ∧
      (∀ d ∈ s, isSpecial r.inBrackets d = false) ∧
      ∀ d ∈ rest'.head?, isSpecial r.inBrackets d = true := by
    refine ⟨rest.takeWhile fun d => !isSpecial r.inBrackets d,
      rest.dropWhile fun d => !isSpecial r.inBrackets d, List.takeWhile_append_dropWhile.symm,
      fun d hd => by simpa using List.mem_takeWhile_imp hd, fun d hd => ?_⟩
    have hd' := List.head?_dropWhile_not (fun d => !isSpecial r.inBrackets d) rest
    rw [hd] at hd'
    simpa using hd'
  have hplain : ∀ d ∈ c :: s, isSpecial r.inBrackets d = false :=
    List.forall_mem_cons.2 ⟨hc, hs⟩
  have hscan : ∀ d ∈ c :: s, isDelimiter r.inBrackets d = false ∧ d ≠ '[' ∧ d ≠ ']' := by
    intro d hd
    have hd := hplain d hd
    refine ⟨Bool.eq_false_iff.2 fun hb => ?_, ?_, ?_⟩
    · rw [isSpecial_of_isDelimiter hb] at hd
      cases hd
    · rintro rfl
      cases hd
    · rintro rfl
      cases hd
  have hline : (inLine ((c :: s).reverse ++ done).head? rest').head? ≠ some '\n' := by
    refine head?_inLine_ne (by decide) (fun hn => h.one_line ?_) _
    exact List.mem_cons_of_mem c (List.mem_append_right s (List.mem_of_mem_head? hn))
  have hstep : r.step {} before c (s ++ inLine ((c :: s).reverse ++ done).head? rest') =
      (s.length + 1, r.add (.text (c :: s))) := by
    refine step_text {} hplain (fun d hd => ⟨isSpecial_head?_inLine hrest _ d hd, ?_⟩)
      (head?_pieces_ne h) before
    rintro rfl
    exact hline hd
  have hcourse : Course t notes (r.add (.text (c :: s))) ((c :: s).reverse ++ before)
      ((c :: s).reverse ++ done) rest' := by
    refine Course.addText h (fun d hd => (hscan d hd).1) (flank_append h.flanked _) ?_
      (delimiters_append hscan)
    rw [← misreadsBracket_append (w := c :: s) fun d hd => (hscan d hd).2]
    exact h.brackets
  refine hcourse.advances_plain (fun d hd he => ?_) hstep
  have hd := hplain d hd
  rw [isSpecial_of_mem_escapable he] at hd
  cases hd

theorem isText_piece (run : Run) : run.piece.isText = true := by
  unfold Run.piece
  split_ifs <;> rfl

theorem spelled_piece (run : Run) : run.piece.inline.spelled = run.text := by
  unfold Run.piece
  split_ifs <;> rfl

theorem eq_of_run?_piece {run run' : Run} (h : run' ∈ run.piece.run?) : run' = run := by
  unfold Run.piece at h
  split_ifs at h
  · exact (Option.some.inj h).symm
  · cases h

theorem char_count_read (c : Char) (n : Nat) (before after : Text) :
    (Run.read c n before after).char = c ∧ (Run.read c n before after).count = n := by
  unfold Run.read
  dsimp only
  split_ifs <;> exact ⟨rfl, rfl⟩

theorem step_run {w : Text} (hc : c ∈ ['~', '^', '*', '_'])
    (hspecial : isSpecial r.inBrackets c = true) :
    r.step {} before c w = readRun r c before w := by
  unfold Reader.step
  rw [if_neg (by simp [hspecial])]
  simp only [List.mem_cons, List.not_mem_nil, or_false] at hc
  rcases hc with rfl | rfl | rfl | rfl <;> rfl

theorem readRun_replicate {n : Nat} {w : Text} (hw : w.head? ≠ some c) :
    readRun r c before (List.replicate n c ++ w) =
      (n + 1, { r with pieces := (Run.read c (n + 1) before w).piece :: r.pieces }) := by
  rw [readRun, takeWhile_replicate_append n hw]
  simp

/-- A run of delimiters that is added to what has been read keeps the course. -/
theorem Course.pushRun {n : Nat} (hc : isDelimiter r.inBrackets c = true)
    (hrest : rest.head? ≠ some c)
    (h : Course t notes r before done (c :: (List.replicate n c ++ rest))) :
    Course t notes { r with pieces := (Run.read c (n + 1) done rest).piece :: r.pieces }
      ((List.replicate (n + 1) c).reverse ++ before) ((List.replicate (n + 1) c).reverse ++ done)
      rest := by
  obtain ⟨hchar, hcount⟩ := char_count_read c (n + 1) done rest
  have hdone : List.replicate n c ++ c :: done = (List.replicate (n + 1) c).reverse ++ done := by
    rw [List.reverse_replicate, List.replicate_succ']
    simp
  refine Course.push (s := List.replicate (n + 1) c) h (isText_piece _) ?_ ?_
    (flank_append h.flanked _) ?_ ?_ ?_
  · rw [spelled_piece, Run.text, hchar, hcount]
  · intro run hrun
    rw [eq_of_run?_piece hrun, hcount]
    exact Nat.succ_pos n
  · intro d _ hd hlast
    rw [List.reverse_replicate, List.replicate_succ, List.cons_append, List.head?_cons] at hlast
    exact hrest (hlast ▸ hd)
  · rw [← misreadsBracket_append (w := List.replicate (n + 1) c) fun d hd => ?_]
    · exact h.brackets
    · rw [(List.mem_replicate.1 hd).2]
      exact ne_bracket_of_isDelimiter hc
  · rw [← hdone]
    exact delimiters_run hc (h.fresh c hc rfl) hrest

/-- A run of tildes or carets is one piece. -/
theorem advances_run (h : Course t notes r before done (c :: rest))
    (hc : isDelimiter r.inBrackets c = true) : Advances t r before done (c :: rest) := by
  obtain ⟨n, rest', rfl, hrest⟩ := exists_replicate_append c rest
  have hcases : c = '~' ∨ c = '^' := by
    simp only [isDelimiter, Bool.or_eq_true, Bool.and_eq_true, beq_iff_eq] at hc
    exact hc.imp_right And.left
  have hplain : c ∉ escapable ∧ c ≠ '\\' ∧ c ∈ ['~', '^', '*', '_'] := by
    rcases hcases with rfl | rfl <;> decide
  refine (h.pushRun hc hrest).advances_plain (fun d hd => ?_) ?_
  · have heq : d = c := List.eq_of_mem_replicate (List.replicate_succ ▸ hd)
    exact heq ▸ hplain.1
  · rw [step_run hplain.2.2 (isSpecial_of_isDelimiter hc),
      readRun_replicate (head?_inLine_ne hplain.2.1 hrest _), List.length_replicate]
    exact congrArg (fun run : Run => (n + 1, { r with pieces := run.piece :: r.pieces }))
      (read_inLine h.flanked _ _ _ _)

/-- How an opening bracket is written. -/
def opening (image : Bool) : Text :=
  if image then ['!', '['] else ['[']

theorem merged_openBracket (r : Reader) (image : Bool) (after : Text) :
    (r.openBracket image after).merged = .node (.text (opening image)) :: r.merged := by
  have hfollowed : ∀ pieces : List Piece, (r.openBracket image after).brackets.tail.foldl
      Reader.merge pieces = r.brackets.foldl Reader.merge pieces := by
    intro pieces
    unfold Reader.openBracket
    rcases r.brackets with _ | ⟨b, brackets⟩ <;> rfl
  calc (r.openBracket image after).merged
    _ = (r.openBracket image after).brackets.tail.foldl Reader.merge
          ([.node (.text (opening image))] ++ r.pieces) := rfl
    _ = _ := by rw [hfollowed, foldl_merge_append, Reader.merged, List.singleton_append]

theorem regions_openBracket {image : Bool} (w : Text)
    (h : Regions (opening image ++ rest) r.pieces r.brackets notes)
    (himage : image = true → rest.head? ≠ some '^') :
    Regions rest [] (r.openBracket image w).brackets ((rest.head? == some '^') :: notes) := by
  have hfollowed : ∀ pieces : List Piece, Regions rest pieces r.brackets notes →
      Regions rest pieces (r.openBracket image w).brackets.tail notes := by
    intro pieces hr
    unfold Reader.openBracket
    rcases hb : r.brackets with _ | ⟨b, bs⟩ <;> rw [hb] at hr <;>
      rcases notes with _ | ⟨note, notes⟩ <;> exact hr
  refine ⟨by simp, fun hn => ⟨?_, by simp⟩, hfollowed _ ?_⟩
  · exact Bool.eq_false_iff.2 fun hi => himage hi (beq_iff_eq.1 hn)
  · refine h.congr ?_ fun _ hall => List.forall_mem_cons.2 ⟨rfl, hall⟩
    simp [Reader.merge, opening, Piece.inline, Inline.spelled]

/-- An opening bracket that does not begin a link sets aside what has been read. -/
theorem Course.openBracket (image : Bool) (w : Text)
    (h : Course t notes r before done (opening image ++ rest)) (hopen : opensLink rest = false)
    (himage : image = true → rest.head? ≠ some '^') :
    Course t ((rest.head? == some '^') :: notes) (r.openBracket image w)
      ((opening image).reverse ++ before) ((opening image).reverse ++ done) rest := by
  have hlast : ∀ u, ∃ u', (opening image).reverse ++ u = '[' :: u' := fun u => by
    cases image <;> exact ⟨_, rfl⟩
  have hruns : delimiters r.inBrackets done (opening image ++ rest) =
      delimiters true ((opening image).reverse ++ done) rest := by
    have hbracket : ∀ done : Text, delimiters r.inBrackets done ('[' :: rest) =
        delimiters true ('[' :: done) rest := by
      intro done
      rw [delimiters]
      simp [isDelimiter, hopen]
    cases image
    · exact hbracket done
    · rw [opening, if_pos rfl, List.cons_append,
        delimiters_cons (by rfl) (by decide) fun hc => absurd hc (by decide)]
      exact hbracket _
  have hbrackets : misreadsBracket notes (opening image ++ rest) =
      misreadsBracket ((rest.head? == some '^') :: notes) rest := by
    have hbracket : misreadsBracket notes ('[' :: rest) =
        misreadsBracket ((rest.head? == some '^') :: notes) rest := by
      rw [misreadsBracket]
      simp [hopen]
    cases image
    · exact hbracket
    · rw [opening, if_pos rfl, List.cons_append,
        misreadsBracket_cons (by decide) fun hc => absurd hc (by decide)]
      exact hbracket
  refine ⟨?_, regions_openBracket w h.regions himage, flank_append h.flanked _,
    fun c hc _ => ?_, fun hm => h.one_line (List.mem_append_right _ hm),
    misreads_append done h.reads, hbrackets ▸ h.brackets⟩
  · rw [merged_openBracket]
    have htold := h.told
    rw [hruns] at htold
    exact Told.push (p := .node (.text (opening image))) htold rfl rfl (by simp [Piece.run?])
  · obtain ⟨u, hu⟩ := hlast done
    rw [hu, List.head?_cons]
    rintro ⟨⟩
    cases hc

/-- A bracket that is not escaped opens, whether or not it is closed. -/
theorem advances_open (h : Course t notes r before done ('[' :: rest))
    (he : needsEscape .plain 0 done.head? '[' rest = false) :
    Advances t r before done ('[' :: rest) := by
  have hopen : opensLink rest = false := by simpa [needsEscape] using he
  refine ⟨_, _, _, _, rest, by simp,
    Course.openBracket false (inLine (some '[') rest) h hopen (by simp), ?_⟩
  rw [inLine_cons_of_not he]
  exact read_of_step (s := []) rfl

theorem advances_openImage (h : Course t notes r before done ('!' :: '[' :: rest))
    (he : needsEscape .plain 0 (some '!') '[' rest = false) (hnote : rest.head? ≠ some '^') :
    Advances t r before done ('!' :: '[' :: rest) := by
  have hopen : opensLink rest = false := by simpa [needsEscape] using he
  have hhead : (inLine (some '[') rest).head? ≠ some '^' := head?_inLine_ne (by decide) hnote _
  have hstep : r.step {} before '!' (['['] ++ inLine (some '[') rest) =
      (2, r.openBracket true (inLine (some '[') rest)) := by
    unfold Reader.step
    simp [isSpecial, hhead]
  refine ⟨_, _, _, _, rest, by simp only [List.length_cons]; omega,
    Course.openBracket true (inLine (some '[') rest) h hopen (fun _ => hnote), ?_⟩
  rw [inLine_cons_of_not (needsEscape_eq_false (by decide)), inLine_cons_of_not he]
  exact read_of_step hstep

theorem Told.replace {later : List Run} {ps qs : List Piece} {p : Piece}
    (h : Told t (ps ++ qs) (s ++ rest) later) (hp : p.inline.isLiteral = true)
    (hs : p.inline.spelled = spelling ps ++ s) (hrun : p.run? = none) :
    Told t (p :: qs) rest later where
  literal := List.forall_mem_cons.2 ⟨hp, fun q hq => h.literal q (List.mem_append_right ps hq)⟩
  counts run hr := by
    rw [List.filterMap_cons, hrun] at hr
    refine h.counts run ?_
    rw [List.filterMap_append]
    exact List.mem_append_right _ hr
  spelled := by
    rw [← h.spelled, spelling_cons, spelling_append, hs]
    simp
  apart := by
    refine h.apart.sublist (List.Sublist.append_right ?_ later)
    rw [List.reverse_cons, List.reverse_append, List.filterMap_append, List.filterMap_append]
    simp [hrun]

theorem literal?_of_isText {p : Piece} (hp : p.isText = true) :
    p.literal? = some p.inline.spelled := by
  rcases p with x | run
  · cases x
    case text => rfl
    all_goals cases hp
  · rfl

theorem exists_of_footnoteName? {pieces : List Piece} {name : Text}
    (h : footnoteName? pieces = some name) :
    ∃ first rest u, pieces = first :: rest ∧ first.isText = true ∧
      first.inline.spelled = '^' :: u ∧
      pieces.flatMap (fun p => p.literal?.getD []) = '^' :: name := by
  unfold footnoteName? at h
  split at h
  · cases h
  · next first rest =>
    dsimp only at h
    split at h
    · next u c name' htext hfirst hall =>
      cases h
      rw [literal?_of_isText htext] at hfirst
      exact ⟨first, rest, u, rfl, htext, Option.some.inj hfirst, hall⟩
    · cases h

theorem inlineTarget?_eq_none {after : Text} (h : after.head? ≠ some '(') :
    inlineTarget? after = none := by
  have hstrip : Text.strip? "(" after = none := by
    rcases after with _ | ⟨c, after⟩
    · rfl
    · have hc : c ≠ '(' := by simpa using h
      simp [Text.strip?, Ne.symm hc]
  rw [inlineTarget?, hstrip]
  rfl

theorem referenceTarget?_eq_none (b : OpenBracket) (after : Text) :
    referenceTarget? {} b after = none := by
  unfold referenceTarget?
  dsimp only
  rw [Option.bind_eq_none_iff]
  intro _ _
  rfl

theorem delimiters_close (inBrackets : Bool) :
    delimiters inBrackets done (']' :: rest) = delimiters false (']' :: done) rest := by
  rw [delimiters]
  simp [isDelimiter]

theorem step_close (w : Text) : r.step {} before ']' w = closeBracket {} r w := by
  unfold Reader.step
  rfl

/-- What a closing bracket makes of what has been read is on course if it stands for the text. -/
theorem Course.close (h : Course t notes r before done (']' :: rest)) (notes' : List Bool)
    (hstep : closeBracket {} r (inLine (some ']') rest) = (1, r'))
    (hinside : r'.inBrackets = false)
    (htold : Told t r'.merged rest (delimiters false (']' :: done) rest))
    (hregions : Regions rest r'.pieces r'.brackets notes')
    (hbrackets : misreadsBracket notes' rest = false) :
    Advances t r before done (']' :: rest) := by
  refine ⟨notes', r', ']' :: before, ']' :: done, rest, by simp, ⟨hinside ▸ htold,
    hregions, flank_append h.flanked [']'], fun c hc _ => ?_,
    fun hm => h.one_line (List.mem_cons_of_mem _ hm), misreads_append (w := [']']) done h.reads,
    hbrackets⟩, ?_⟩
  · rw [List.head?_cons]
    rintro ⟨⟩
    cases r'.inBrackets <;> cases hc
  · rw [inLine_cons_of_not (needsEscape_eq_false (by decide))]
    exact read_of_step (s := []) ((step_close _).trans hstep)

section Closing

variable {b : OpenBracket} {bs : List OpenBracket} {note : Bool}

theorem closeBracket_nil (hb : r.brackets = []) (w : Text) : closeBracket {} r w =
    (1, ({ r with inBrackets := false } : Reader).add (.text [']'])) := by
  unfold closeBracket
  simp [hb]

/-- Without a destination behind it a closing bracket ends nothing but a footnote reference. -/
theorem closeBracket_cons (hb : r.brackets = b :: bs) {w : Text} (hw : w.head? ≠ some '(') :
    closeBracket {} r w = (1, ({ r with inBrackets := false } : Reader).giveUp b bs) ∨
      ∃ name, footnoteName? r.pieces.reverse = some name ∧
        closeBracket {} r w = (1, { r with
          inBrackets := false
          pieces := r.pieces.filter (·.literal?.isNone) ++
            .node (.footnoteRef name 0 0) :: b.before
          brackets := bs }) := by
  unfold closeBracket
  simp only [hb, inlineTarget?_eq_none hw, referenceTarget?_eq_none, Option.or_none]
  split_ifs
  · exact .inl rfl
  · rcases hname : footnoteName? r.pieces.reverse with _ | name
    · exact .inl rfl
    · exact .inr ⟨name, rfl, rfl⟩

theorem told_close (h : Course t notes r before done (']' :: rest)) :
    Told t (.node (.text [']']) :: r.merged) rest (delimiters false (']' :: done) rest) :=
  Told.push (s := [']']) (delimiters_close r.inBrackets ▸ h.told) rfl rfl (by simp [Piece.run?])

theorem advances_giveUp (h : Course t (note :: notes) r before done (']' :: rest))
    (hb : r.brackets = b :: bs)
    (hregions : Regions (']' :: rest) (Reader.merge r.pieces b) bs notes)
    (hbrackets : misreadsBracket notes rest = false)
    (hstep : closeBracket {} r (inLine (some ']') rest) =
      (1, ({ r with inBrackets := false } : Reader).giveUp b bs)) :
    Advances t r before done (']' :: rest) := by
  refine h.close notes hstep rfl ?_ ?_ hbrackets
  · have hmerged : (({ r with inBrackets := false } : Reader).giveUp b bs).merged =
        .node (.text [']']) :: r.merged := by
      rw [Reader.merged, Reader.merged, hb]
      exact foldl_merge_append bs [.node (.text [']'])] (Reader.merge r.pieces b)
    rw [hmerged]
    exact told_close h
  · refine hregions.congr ?_ fun _ hall => List.forall_mem_cons.2 ⟨rfl, hall⟩
    simp [Piece.inline, Inline.spelled, Reader.giveUp, Reader.add]

/-- The text since a bracket, without its caret, names a footnote; the reference stands for it. -/
theorem advances_note (h : Course t (note :: notes) r before done (']' :: rest))
    (hb : r.brackets = b :: bs) (hnotes : note = true → true ∉ notes)
    (hregions : Regions (']' :: rest) r.pieces (b :: bs) (note :: notes))
    (hbrackets : misreadsBracket notes rest = false) {name : Text}
    (hname : footnoteName? r.pieces.reverse = some name)
    (hstep : closeBracket {} r (inLine (some ']') rest) = (1, { r with
      inBrackets := false
      pieces := r.pieces.filter (·.literal?.isNone) ++ .node (.footnoteRef name 0 0) :: b.before
      brackets := bs })) :
    Advances t r before done (']' :: rest) := by
  obtain ⟨hhead, htext, hmerge⟩ := hregions
  obtain ⟨first, others, u, hpieces, -, hfirst, hall⟩ := exists_of_footnoteName? hname
  have hnote : note = true := hhead.1 (by
    rw [spelling, hpieces, List.flatMap_cons, hfirst]
    rfl)
  obtain ⟨himage, htexts⟩ := htext hnote
  have hfilter : r.pieces.filter (·.literal?.isNone) = [] := by
    rw [List.filter_eq_nil_iff]
    intro p hp
    rw [literal?_of_isText (htexts p hp)]
    simp
  have hspelling : spelling r.pieces = '^' :: name := by
    rw [← hall, spelling]
    refine List.flatMap_congr fun p hp => ?_
    rw [literal?_of_isText (htexts p (List.mem_reverse.1 hp))]
    rfl
  rw [hfilter, List.nil_append] at hstep
  let ref : Piece := .node (.footnoteRef name 0 0)
  have hmerged : r.merged = (r.pieces ++ [.node (.text ['['])]) ++
      bs.foldl Reader.merge b.before := by
    have hmerge : Reader.merge r.pieces b = r.pieces ++ [.node (.text ['['])] ++ b.before := by
      simp [Reader.merge, himage]
    rw [Reader.merged, hb, List.foldl_cons, hmerge, foldl_merge_append]
  have hmerged' : bs.foldl Reader.merge (ref :: b.before) =
      ref :: bs.foldl Reader.merge b.before := foldl_merge_append bs [ref] b.before
  have href : ref.inline.spelled = '[' :: (spelling r.pieces ++ [']']) := by
    rw [hspelling]
    rfl
  refine h.close notes hstep rfl ?_ ?_ hbrackets
  · have htold := h.told
    rw [hmerged, delimiters_close] at htold
    rw [Reader.merged]
    dsimp only
    rw [hmerged']
    refine Told.replace (s := [']']) htold rfl ?_ rfl
    rw [href]
    simp [Piece.inline, Inline.spelled]
  · refine hmerge.congr ?_ fun hn => absurd hn (hnotes hnote)
    rw [spelling_cons, href]
    simp [Reader.merge, himage, Piece.inline, Inline.spelled]

end Closing

/-- A closing bracket is text, or makes a footnote reference of the text since the last bracket. -/
theorem advances_close (h : Course t notes r before done (']' :: rest)) :
    Advances t r before done (']' :: rest) := by
  have hbrackets := h.brackets
  have hregions := h.regions
  rw [misreadsBracket] at hbrackets
  rcases hb : r.brackets with _ | ⟨b, bs⟩ <;> rcases notes with _ | ⟨note, notes⟩ <;>
    rw [hb] at hregions
  case nil.cons => cases hregions
  case cons.nil => cases hregions
  case nil.nil =>
    let r' := ({ r with inBrackets := false } : Reader).add (.text [']'])
    have hmerged : r'.merged = .node (.text [']']) :: r.merged :=
      foldl_merge_append r.brackets [_] r.pieces
    refine h.close [] (closeBracket_nil hb _) rfl
      (hmerged ▸ told_close h) ?_ ?_
    · have hnone : r'.brackets = [] := hb
      rw [hnone]
      trivial
    · simpa using hbrackets
  case cons.cons =>
    have hscan : (rest.head? ≠ some '(' ∧ (note = true → true ∉ notes)) ∧
        misreadsBracket notes rest = false := by simpa using hbrackets
    obtain ⟨⟨hparen, hnotes⟩, hlater⟩ := hscan
    have hafter := head?_inLine_ne (by decide) hparen (some ']')
    rcases closeBracket_cons hb hafter with hstep | ⟨name, hn, hstep⟩
    · exact advances_giveUp h hb hregions.2.2 hlater hstep
    · exact advances_note h hb hnotes hregions hlater hn hstep

end Steps

end Markdown

end TidyMark
