import TidyMark.Proofs.Targets

/-!
# What a label resolves to

A table is asked twice for a label: for exactly that label (`exactTarget?`) and then for one that
is the same up to case and white space (`foldedTarget?`). Either answer of a table that entries are
added to is the old answer or, where there was none, that of the entries (`firstTarget?_insertAll`).
`resolve` has no such law: an entry of the context under exactly the label comes before an
equivalent label of the document (`resolve_withContext`).
-/

namespace TidyMark.Reflink

namespace Table

variable {table : Table} {label : Text} {p : Text → Bool}

/-- The target under the first label that satisfies `p`. -/
def firstTarget? (table : Table) (p : Text → Bool) : Option Target :=
  (table.entries.find? fun (l, _) => p l).map (·.2)

/-- The target under exactly this label. -/
def exactTarget? (table : Table) (label : Text) : Option Target :=
  table.firstTarget? (· == label)

/-- The first target under a label that is equivalent to this one. -/
def foldedTarget? (table : Table) (label : Text) : Option Target :=
  table.firstTarget? (normalize · == normalize label)

/-- Adds entries one after the other. -/
def insertAll (table : Table) (entries : List (Text × Target)) : Table :=
  entries.foldl (fun table (label, target) => table.insert label target) table

/-- The targets of a context, as a table of their own. -/
def ofContext (context : List (Text × Text)) : Table :=
  ⟨context.map fun (label, url) => (label, ⟨Text.trim url, none⟩)⟩

section Lookups

theorem resolve_eq_or (table : Table) (label : Text) :
    table.resolve label = (table.exactTarget? label).or (table.foldedTarget? label) := by
  unfold resolve exactTarget? foldedTarget? firstTarget?
  split
  · next h => rw [h]; rfl
  · next h => rw [h]; rfl

theorem firstTarget?_isSome :
    (table.firstTarget? p).isSome ↔ ∃ e ∈ table.entries, p e.1 = true := by
  rw [firstTarget?, Option.isSome_map, List.find?_isSome]

theorem has_eq_isSome (table : Table) (label : Text) :
    table.has label = (table.exactTarget? label).isSome := by
  rw [exactTarget?, firstTarget?, Option.isSome_map, List.isSome_find?]
  rfl

/-- Whatever accepts a label that is there finds something. -/
theorem firstTarget?_isSome_of_has (h : table.has label = true) (hp : p label = true) :
    (table.firstTarget? p).isSome := by
  obtain ⟨e, he, hlabel⟩ := List.any_eq_true.1 h
  exact firstTarget?_isSome.2 ⟨e, he, by rwa [LawfulBEq.eq_of_beq hlabel]⟩

end Lookups

section Insertions

theorem firstTarget?_append (entries more : List (Text × Target)) (p : Text → Bool) :
    firstTarget? ⟨entries ++ more⟩ p = (firstTarget? ⟨entries⟩ p).or (firstTarget? ⟨more⟩ p) := by
  simp only [firstTarget?, List.find?_append, Option.map_or]

theorem firstTarget?_singleton (e : Text × Target) (p : Text → Bool) :
    firstTarget? ⟨[e]⟩ p = if p e.1 then some e.2 else none := by
  cases hp : p e.1 <;> simp [firstTarget?, hp]

theorem firstTarget?_insert (table : Table) (e : Text × Target) (p : Text → Bool) :
    (table.insert e.1 e.2).firstTarget? p = (table.firstTarget? p).or (firstTarget? ⟨[e]⟩ p) := by
  unfold insert
  split_ifs with h
  · cases hp : p e.1 with
    | true => rw [Option.or_of_isSome (firstTarget?_isSome_of_has h hp)]
    | false => rw [firstTarget?_singleton, hp, if_neg Bool.false_ne_true, Option.or_none]
  · exact firstTarget?_append table.entries [e] p

theorem firstTarget?_insertAll (entries : List (Text × Target)) (p : Text → Bool) :
    ∀ table : Table, (table.insertAll entries).firstTarget? p =
      (table.firstTarget? p).or (firstTarget? ⟨entries⟩ p) := by
  induction entries with
  | nil => exact fun _ => (Option.or_none ..).symm
  | cons e entries ih =>
    intro table
    calc (table.insertAll (e :: entries)).firstTarget? p
      _ = ((table.insert e.1 e.2).firstTarget? p).or (firstTarget? ⟨entries⟩ p) := ih _
      _ = (table.firstTarget? p).or ((firstTarget? ⟨[e]⟩ p).or (firstTarget? ⟨entries⟩ p)) := by
        rw [firstTarget?_insert, Option.or_assoc]
      _ = (table.firstTarget? p).or (firstTarget? ⟨e :: entries⟩ p) := by
        rw [← firstTarget?_append, List.singleton_append]

end Insertions

section Contexts

variable {context : List (Text × Text)}

theorem withContext_eq_insertAll (table : Table) (context : List (Text × Text)) :
    table.withContext context = table.insertAll (ofContext context).entries := by
  rw [withContext, insertAll, ofContext, List.foldl_map]

theorem exactTarget?_ofContext (context : List (Text × Text)) (label : Text) :
    (ofContext context).exactTarget? label =
      (context.lookup label).map fun url => ⟨Text.trim url, none⟩ := by
  induction context with
  | nil => rfl
  | cons e context ih =>
    obtain ⟨l, url⟩ := e
    by_cases h : l = label
    · simp [exactTarget?, firstTarget?, ofContext, h]
    · have hne : (label == l) = false := beq_eq_false_iff_ne.2 (Ne.symm h)
      simpa [exactTarget?, firstTarget?, ofContext, h, List.lookup_cons, hne] using ih

/-- Both tables are asked for exactly the label before either is asked for an equivalent one. -/
theorem resolve_withContext (table : Table) (context : List (Text × Text)) (label : Text) :
    (table.withContext context).resolve label =
      ((table.exactTarget? label).or ((ofContext context).exactTarget? label)).or
        ((table.foldedTarget? label).or ((ofContext context).foldedTarget? label)) := by
  simp only [withContext_eq_insertAll, resolve_eq_or, exactTarget?, foldedTarget?,
    firstTarget?_insertAll]

theorem resolve_withContext_of_has (h : table.has label = true) :
    (table.withContext context).resolve label = table.resolve label := by
  rw [has_eq_isSome] at h
  rw [resolve_withContext, resolve_eq_or, Option.or_of_isSome h, Option.or_of_isSome h,
    Option.or_of_isSome h]

/-- A target that is found under an equivalent label gives way to one of the context under exactly
the label. -/
theorem resolve_withContext_of_not_has (h : table.has label = false) {target : Target}
    (htarget : table.resolve label = some target) :
    (table.withContext context).resolve label =
      ((context.lookup label).map fun url => ⟨Text.trim url, none⟩).or (some target) := by
  have hexact : table.exactTarget? label = none := by
    simpa only [has_eq_isSome, Option.isSome_eq_false_iff, Option.isNone_iff_eq_none] using h
  rw [resolve_eq_or, hexact, Option.none_or] at htarget
  rw [resolve_withContext, hexact, Option.none_or, exactTarget?_ofContext, htarget, Option.some_or]

end Contexts

end Table

/-- A context leaves the target of a label of the document as it is if and only if the document
defines exactly that label, or the context has nothing else under it. -/
theorem resolve_withContext_ofDocument_iff {source label : Text} {target : Target}
    (context : List (Text × Text))
    (h : (Table.ofDocument source).resolve label = some target) :
    ((Table.ofDocument source).withContext context).resolve label = some target ↔
      (Table.ofDocument source).has label = true ∨
        ∀ url, context.lookup label = some url → (⟨Text.trim url, none⟩ : Target) = target := by
  by_cases hlabel : (Table.ofDocument source).has label = true
  · simp only [hlabel, true_or, iff_true]
    rw [Table.resolve_withContext_of_has hlabel, h]
  · rw [Table.resolve_withContext_of_not_has (by simpa using hlabel) h]
    simp only [hlabel, Bool.false_eq_true, false_or]
    cases context.lookup label with
    | none => simp
    | some url => simp

/-- The document defines `Foo` and the context `foo`, which `foo` is looked up as from then on. -/
theorem resolve_withContext_ofDocument_ne :
    (Table.ofDocument "[Foo]: x").resolve "foo" = some ⟨"x", none⟩ ∧
      ((Table.ofDocument "[Foo]: x").withContext [("foo", "y")]).resolve "foo" ≠
        some ⟨"x", none⟩ := by
  have h : (Table.ofDocument "[Foo]: x").resolve "foo" = some ⟨"x", none⟩ := by decide +kernel
  refine ⟨h, fun hkept => ?_⟩
  rcases (resolve_withContext_ofDocument_iff [("foo", "y")] h).1 hkept with hhas | hall
  · exact absurd hhas (by decide +kernel)
  · exact absurd (hall "y" (by decide)) (by decide)

theorem not_forall_resolve_withContext :
    ¬ ∀ (source : Text) (context : List (Text × Text)) (label : Text) (target : Target),
      (Table.ofDocument source).resolve label = some target →
        ((Table.ofDocument source).withContext context).resolve label = some target := by
  intro h
  have hkept := h "[Foo]: x" [("foo", "y")] "foo" ⟨"x", none⟩ (by decide +kernel)
  exact absurd hkept (by decide +kernel)

end TidyMark.Reflink
