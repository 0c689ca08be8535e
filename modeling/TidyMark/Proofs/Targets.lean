import TidyMark.Proofs.CodeKept
import TidyMark.Reflink.Basic

/-!
# Where targets come from

The targets of a document are cut out of the lines that define them, so a character that stands on
none of these lines stands in no target (`avoids_ofDocument`).
-/

namespace TidyMark.Reflink

open Text

variable {c : Char}

section Defining

theorem strip?_subset {p t rest : Text} (h : strip? p t = some rest) : rest ⊆ t := by
  fun_induction strip? p t with
  | case1 t => cases h; exact List.Subset.refl _
  | case2 => cases h
  | case3 p ps c t _ ih => exact List.subset_cons_of_subset c (ih h)
  | case4 => cases h

theorem dropSpaces_subset (n : Nat) (t : Text) : dropSpaces n t ⊆ t := by
  fun_induction dropSpaces n t with
  | case1 n t ih => exact List.subset_cons_of_subset ' ' ih
  | case2 => exact List.Subset.refl _

theorem address?_subset {t url rest : Text} (h : address? t = some (url, rest)) :
    url ⊆ t ∧ rest ⊆ t := by
  unfold address? at h
  split at h
  · cases h
  · next d ds hd =>
    cases h
    refine ⟨hd ▸ (List.takeWhile_prefix _).subset,
      List.Subset.trans ?_ (List.dropWhile_subset isAddressChar)⟩
    rcases hs : strip? ">" (t.dropWhile isAddressChar) with _ | rest
    · exact List.Subset.refl _
    · exact strip?_subset hs

theorem bracketedAddress?_subset {t url rest : Text}
    (h : bracketedAddress? t = some (url, rest)) : url ⊆ t ∧ rest ⊆ t := by
  unfold bracketedAddress? at h
  split at h
  · next tail =>
    rcases Option.or_eq_some_iff.1 h with h | ⟨-, h⟩
    · obtain ⟨hurl, hrest⟩ := address?_subset h
      exact ⟨List.subset_cons_of_subset _ hurl, List.subset_cons_of_subset _ hrest⟩
    · exact address?_subset h
  · exact address?_subset h

theorem titleUpTo?_subset {close : Char} {t title : Text} (h : titleUpTo? close t = some title) :
    title ⊆ t := by
  unfold titleUpTo? at h
  split at h
  · cases h
  · split_ifs at h
    cases h
    exact (List.takeWhile_prefix _).subset

theorem title?_subset {t title : Text} (h : title? t = some (some title)) : title ⊆ t := by
  unfold title? at h
  split at h
  · cases h
  · next d rest hd =>
    have hrest : rest ⊆ t :=
      List.Subset.trans (List.subset_cons_self d rest) (hd ▸ List.dropWhile_subset isIndent)
    split_ifs at h
    have hquoted : ∃ close, titleUpTo? close rest = some title := by
      split at h
      · exact ⟨_, by simpa using h⟩
      · exact ⟨_, by simpa using h⟩
      · exact ⟨_, by simpa using h⟩
      · cases h
    obtain ⟨close, hq⟩ := hquoted
    exact List.Subset.trans (titleUpTo?_subset hq) hrest

/-- A definition takes its target from its line. -/
theorem avoids_of_ofLine? {line : Text} {d : Definition} (h : Definition.ofLine? line = some d)
    (hc : c ∉ line) : d.target.Avoids c := by
  unfold Definition.ofLine? at h
  simp only [Option.bind_eq_bind, Option.bind_eq_some_iff] at h
  obtain ⟨inner, hinner, h⟩ := h
  split_ifs at h
  · cases h
  simp only [Option.bind_eq_some_iff, Option.pure_def] at h
  obtain ⟨behind, hbehind, ⟨url, rest⟩, haddress, title, htitle, h⟩ := h
  cases h
  have hbehind : behind.dropWhile isIndent ⊆ line :=
    List.Subset.trans (List.dropWhile_subset _) <| List.Subset.trans (strip?_subset hbehind) <|
      List.Subset.trans (List.dropWhile_subset _) <| List.Subset.trans (strip?_subset hinner) <|
        dropSpaces_subset 3 line
  obtain ⟨hurl, hrest⟩ := bracketedAddress?_subset haddress
  refine ⟨fun hm => hc (hbehind (hurl hm)), ?_⟩
  rintro title rfl hm
  exact hc (hbehind (hrest (title?_subset htitle hm)))

end Defining

section Tables

theorem avoids_insert {table : Table} (h : table.Avoids c) {target : Target}
    (ht : target.Avoids c) (label : Text) : (table.insert label target).Avoids c := by
  unfold Table.insert
  split_ifs
  · exact h
  · intro e he
    rcases List.mem_append.1 he with he | he
    · exact h e he
    · rw [List.mem_singleton.1 he]
      exact ht

theorem mem_of_mem_trim {t : Text} (h : c ∈ t.trim) : c ∈ t :=
  (List.dropWhile_suffix _).subset ((dropEndWhile_initial isBlank _).subset h)

theorem avoids_withContext {context : List (Text × Text)} (hc : ∀ e ∈ context, c ∉ e.2) :
    ∀ {table : Table}, table.Avoids c → (table.withContext context).Avoids c := by
  induction context with
  | nil => exact fun h => h
  | cons e context ih =>
    intro table h
    obtain ⟨he, hc⟩ := List.forall_mem_cons.1 hc
    refine ih hc (avoids_insert h ⟨fun hm => he (mem_of_mem_trim hm), ?_⟩ e.1)
    intro title ht
    cases ht

/-- A table with the definition that a line makes, if it makes one. -/
def Table.takeUp (table : Table) (line : Line) : Table :=
  if line.inCode then table
  else
    match Definition.ofLine? line.text with
    | some d => if d.label.head? == some '^' then table else table.insert d.label d.target
    | none => table

theorem ofDocument_eq_foldl (source : Text) :
    Table.ofDocument source = (Line.ofSource source).foldl Table.takeUp {} := rfl

theorem avoids_takeUp {table : Table} (h : table.Avoids c) {line : Line}
    (hline : isDefinition line.text = true → c ∉ line.text) : (table.takeUp line).Avoids c := by
  unfold Table.takeUp
  split_ifs
  · exact h
  · split
    · next d hd =>
      have hc : c ∉ line.text := hline (by rw [isDefinition, hd, Option.isSome_some])
      split_ifs
      · exact h
      · exact avoids_insert h (avoids_of_ofLine? hd hc) d.label
    · exact h

theorem avoids_ofDocument {source : Text}
    (h : ∀ line ∈ Line.ofSource source, isDefinition line.text = true → c ∉ line.text) :
    (Table.ofDocument source).Avoids c := by
  rw [ofDocument_eq_foldl]
  refine List.foldlRecOn (motive := (Table.Avoids · c)) _ _ ?_ fun table ht line hl =>
    avoids_takeUp ht (h line hl)
  exact fun e he => nomatch he

theorem newline_not_mem_of_mem_mark {ps : List Text} (h : ArePieces ps) :
    ∀ (region : Region), ∀ line ∈ Line.mark region ps, '\n' ∉ line.text := by
  induction h with
  | nil => exact fun _ _ hm => nomatch hm
  | last hn _ =>
    intro region
    obtain ⟨text, rs, rfl, hline, -⟩ := exists_isLine hn
    rw [mark_cons hline]
    simpa [Line.mark] using hline.no_newline
  | cons hn _ ih =>
    intro region
    obtain ⟨text, rs, rfl, -, hline⟩ := exists_isLine hn
    rw [List.append_assoc, mark_cons hline, List.forall_mem_cons]
    exact ⟨hline.no_newline, ih _⟩

theorem avoids_forSource {options : Options} (h : ∀ e ∈ options.reflinks, '\n' ∉ e.2)
    (source : Text) : (Table.forSource options source).Avoids '\n' := by
  refine avoids_withContext h (avoids_ofDocument fun line hl _ => ?_)
  exact newline_not_mem_of_mem_mark (arePieces_pieces source) {} line hl

end Tables

end TidyMark.Reflink
