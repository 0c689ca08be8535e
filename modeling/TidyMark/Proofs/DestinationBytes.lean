import TidyMark.Proofs.Backslashes
import TidyMark.Proofs.Enclosure

/-!
# Destinations read byte by byte

A destination can be read off the bytes of a text as well, with an index that goes through them and
no regard for characters (`byteLoop`). It then runs into the middle of characters, above all behind
a backslash, where it skips one byte only. But the bytes inside a character are none that it looks
for (`byteLoop_inside`), so at the end of each character it stands as the reader of characters does
(`byteLoop_utf8`). Where the destination ends is a boundary between characters, behind a parenthesis
that no backslash escapes, and does not go by what follows (`byteLoop_eq_destinationLength?`).
-/

namespace TidyMark

namespace Text

/-- The bytes of a text. -/
def utf8 (t : Text) : List UInt8 :=
  t.flatMap String.utf8EncodeChar

theorem utf8_append (s t : Text) : utf8 (s ++ t) = utf8 s ++ utf8 t :=
  List.flatMap_append

theorem utf8_cons (c : Char) (t : Text) : utf8 (c :: t) = String.utf8EncodeChar c ++ utf8 t :=
  List.flatMap_cons

theorem length_utf8 (t : Text) : (utf8 t).length = byteLength t := by
  induction t with
  | nil => rfl
  | cons c t ih => rw [utf8_cons, List.length_append, String.length_utf8EncodeChar, ih, byteLength]

section Encoding

variable {b : UInt8} {c d : Char}

theorem utf8EncodeChar_of_ascii (hc : c.toNat < 128) : String.utf8EncodeChar c = [c.toUInt8] := by
  have hle : c.val.toNat ≤ 127 := Nat.le_of_lt_succ hc
  rw [String.utf8EncodeChar, if_pos hle]
  rfl

theorem toNat_toUInt8 (hc : c.toNat < 128) : c.toUInt8.toNat = c.toNat := by
  have h : c.toUInt8.toNat = c.toNat % 256 := rfl
  rw [h]
  omega

theorem toUInt8_beq (hc : c.toNat < 128) (hd : d.toNat < 128) :
    (c.toUInt8 == d.toUInt8) = (c == d) := by
  rw [Bool.eq_iff_iff, beq_iff_eq, beq_iff_eq, ← UInt8.toNat_inj, toNat_toUInt8 hc,
    toNat_toUInt8 hd, ← Char.toNat_inj]

/-- A byte past those of ASCII is not the byte of one of its characters. -/
theorem beq_toUInt8_eq_false (hb : 128 ≤ b.toNat) (hd : d.toNat < 128) :
    (b == d.toUInt8) = false := by
  rw [beq_eq_false_iff_ne]
  rintro rfl
  rw [toNat_toUInt8 hd] at hb
  omega

theorem le_of_mem_utf8EncodeChar (hc : ¬ c.toNat < 128) (hb : b ∈ String.utf8EncodeChar c) :
    128 ≤ b.toNat := by
  have hle : ¬ c.val.toNat ≤ 127 := fun h => hc (Nat.lt_succ_of_le h)
  rw [String.utf8EncodeChar, if_neg hle] at hb
  split_ifs at hb <;>
    simp only [List.mem_cons, List.not_mem_nil, or_false] at hb <;>
    rcases hb with rfl | rfl | rfl | rfl <;>
    simp only [UInt8.toNat_ofNat'] <;> omega

/-- The bytes of a character behind its first one are past those of ASCII. -/
theorem exists_utf8EncodeChar (c : Char) : ∃ b inside, String.utf8EncodeChar c = b :: inside ∧
    ∀ b' ∈ inside, 128 ≤ b'.toNat := by
  by_cases hc : c.toNat < 128
  · exact ⟨c.toUInt8, [], utf8EncodeChar_of_ascii hc, nofun⟩
  · obtain ⟨b, inside, h⟩ := List.exists_cons_of_ne_nil (@String.utf8EncodeChar_ne_nil c)
    exact ⟨b, inside, h, fun b' hb' => le_of_mem_utf8EncodeChar hc (h ▸ .tail b hb')⟩

end Encoding

end Text

namespace Reflink

open Text

/-- Whether a byte is white space of ASCII. -/
def isSpaceByte (b : UInt8) : Bool :=
  [' ', '\t', '\n', '\x0c', '\r'].any fun c => b == c.toUInt8

/-- How many parentheses and which quote are open after a byte that is not escaped; `none` when the
byte closes the last parenthesis. -/
def byteStep (depth : Nat) (quote : Option UInt8) (afterSpace : Bool) (b : UInt8) :
    Option (Nat × Option UInt8) :=
  match quote with
  | some q => some (depth, if b == q then none else some q)
  | none =>
    if (b == '"'.toUInt8 || b == '\''.toUInt8) && depth == 1 && afterSpace then some (depth, some b)
    else if b == '('.toUInt8 then some (depth + 1, none)
    else if b == ')'.toUInt8 then if depth - 1 = 0 then none else some (depth - 1, none)
    else some (depth, none)

/-- Reads bytes from the index `i` on, where `depth` parentheses and perhaps a quote are open, up to
the end of the destination. A backslash takes the byte behind it along. -/
def byteLoop (bytes : List UInt8) (i depth : Nat) (quote : Option UInt8) : Option Nat :=
  if h : i < bytes.length then
    if bytes[i] == '\\'.toUInt8 then byteLoop bytes (i + 2) depth quote
    else
      match byteStep depth quote (0 < i && bytes[i - 1]?.any isSpaceByte) bytes[i] with
      | some (depth, quote) => byteLoop bytes (i + 1) depth quote
      | none => some (i + 1)
  else none
termination_by bytes.length - i

/-- A destination at the beginning of a text may end behind `n` bytes: these are characters of the
text, of which the last one is a parenthesis that no backslash escapes. -/
structure ClosesAt (s : Text) (n : Nat) : Prop where
  le : n ≤ (utf8 s).length
  byte : (utf8 s)[n - 1]? = some ')'.toUInt8
  boundary : IsBoundary s n
  unescaped : ∃ before after, s = before ++ ')' :: after ∧ n = byteLength before + 1 ∧
    backslashes before % 2 = 0

section Steps

variable {depth : Nat} {quote last : Option Char} {c : Char} {b : UInt8}

/-- A quote that is open is one of ASCII. -/
def IsAsciiQuote (quote : Option Char) : Prop :=
  ∀ q ∈ quote, q.toNat < 128

theorem isSpaceByte_toUInt8 (hc : c.toNat < 128) : isSpaceByte c.toUInt8 = opensTitleAfter c := by
  simp [isSpaceByte, opensTitleAfter, toUInt8_beq hc, Bool.or_assoc]

theorem isSpaceByte_of_le (hb : 128 ≤ b.toNat) : isSpaceByte b = false := by
  simp [isSpaceByte, beq_toUInt8_eq_false hb]

theorem opensTitleAfter_eq_false (hc : ¬ c.toNat < 128) : opensTitleAfter c = false := by
  have hne (d : Char) (hd : d.toNat < 128) : c ≠ d := fun he => hc (he ▸ hd)
  simp [opensTitleAfter, hne]

/-- White space before a place is seen in the byte there. -/
theorem any_getLast?_utf8 (t : Text) :
    (utf8 t).getLast?.any isSpaceByte = t.getLast?.any opensTitleAfter := by
  rcases List.eq_nil_or_concat' t with rfl | ⟨t, c, rfl⟩
  · rfl
  have hlast : (utf8 (t ++ [c])).getLast? = (String.utf8EncodeChar c).getLast? := by
    have hone : utf8 [c] = String.utf8EncodeChar c := List.append_nil _
    rw [utf8_append, hone, List.getLast?_append_of_ne_nil _ String.utf8EncodeChar_ne_nil]
  rw [hlast, List.getLast?_concat, Option.any_some]
  by_cases hc : c.toNat < 128
  · rw [utf8EncodeChar_of_ascii hc]
    exact isSpaceByte_toUInt8 hc
  · obtain ⟨b, hb⟩ := Option.ne_none_iff_exists'.1
      (mt List.getLast?_eq_none_iff.1 (@String.utf8EncodeChar_ne_nil c))
    rw [hb, Option.any_some, opensTitleAfter_eq_false hc,
      isSpaceByte_of_le (le_of_mem_utf8EncodeChar hc (List.mem_of_getLast? hb))]

theorem destinationStep_of_not_ascii (hq : IsAsciiQuote quote) (hc : ¬ c.toNat < 128) :
    destinationStep depth quote last c = some (depth, quote) := by
  have hne (d : Char) (hd : d.toNat < 128) : c ≠ d := fun he => hc (he ▸ hd)
  rcases quote with _ | q
  · simp [destinationStep, hne]
  · simp [destinationStep, hne q (hq q rfl)]

theorem byteStep_of_le (hq : IsAsciiQuote quote) (hb : 128 ≤ b.toNat) (afterSpace : Bool) :
    byteStep depth (quote.map Char.toUInt8) afterSpace b =
      some (depth, quote.map Char.toUInt8) := by
  rcases quote with _ | q
  · simp [byteStep, beq_toUInt8_eq_false hb]
  · simp [byteStep, beq_toUInt8_eq_false hb (hq q rfl)]

/-- On a character of ASCII the two readers do the same. -/
theorem byteStep_toUInt8 (hq : IsAsciiQuote quote) (hc : c.toNat < 128) :
    byteStep depth (quote.map Char.toUInt8) (last.any opensTitleAfter) c.toUInt8 =
      (destinationStep depth quote last c).map fun (depth, quote) =>
        (depth, quote.map Char.toUInt8) := by
  rcases quote with _ | q
  · simp only [byteStep, destinationStep, Option.map_none, toUInt8_beq hc (d := '"') (by decide),
      toUInt8_beq hc (d := '\'') (by decide), toUInt8_beq hc (d := '(') (by decide),
      toUInt8_beq hc (d := ')') (by decide), Nat.sub_eq_zero_iff_le]
    split_ifs <;> rfl
  · simp only [byteStep, destinationStep, Option.map_some, toUInt8_beq hc (hq q rfl)]
    split_ifs <;> rfl

theorem isAsciiQuote_none : IsAsciiQuote none := by
  simp [IsAsciiQuote]

theorem IsAsciiQuote.step {depth' : Nat} {quote' : Option Char} (hq : IsAsciiQuote quote)
    (h : destinationStep depth quote last c = some (depth', quote')) : IsAsciiQuote quote' := by
  rcases quote with _ | q
  · simp only [destinationStep] at h
    split_ifs at h with hopen
    · obtain ⟨-, rfl⟩ := Prod.mk.inj (Option.some.inj h)
      simp only [Bool.and_eq_true, Bool.or_eq_true, beq_iff_eq] at hopen
      have hascii : c.toNat < 128 := by rcases hopen.1.1 with rfl | rfl <;> decide
      exact fun q hmem => Option.some.inj hmem ▸ hascii
    all_goals
      obtain ⟨-, rfl⟩ := Prod.mk.inj (Option.some.inj h)
      exact isAsciiQuote_none
  · simp only [destinationStep] at h
    obtain ⟨-, rfl⟩ := Prod.mk.inj (Option.some.inj h)
    split_ifs
    · exact isAsciiQuote_none
    · exact hq

theorem eq_of_destinationStep_eq_none (h : destinationStep depth quote last c = none) :
    c = ')' := by
  unfold destinationStep at h
  split at h
  · cases h
  · split_ifs at h with _ _ hclose
    exact beq_iff_eq.1 hclose

end Steps

section Loop

variable {depth : Nat} {quote : Option Char}

/-- What the loop does with the byte it has come to. -/
theorem byteLoop_append_cons (front : List UInt8) (b : UInt8) (rest : List UInt8)
    (quote : Option UInt8) : byteLoop (front ++ b :: rest) front.length depth quote =
      if b == '\\'.toUInt8 then byteLoop (front ++ b :: rest) (front.length + 2) depth quote
      else
        match byteStep depth quote (front.getLast?.any isSpaceByte) b with
        | some (depth, quote) => byteLoop (front ++ b :: rest) (front.length + 1) depth quote
        | none => some (front.length + 1) := by
  have hlt : front.length < (front ++ b :: rest).length := by
    rw [List.length_append, List.length_cons]
    omega
  have hbyte : (front ++ b :: rest)[front.length] = b := by simp
  have hspace : (decide (0 < front.length) &&
      (front ++ b :: rest)[front.length - 1]?.any isSpaceByte) =
        front.getLast?.any isSpaceByte := by
    rcases List.eq_nil_or_concat' front with rfl | ⟨front, a, rfl⟩
    · rfl
    · simp
  rw [byteLoop, dif_pos hlt, hbyte, hspace]

theorem byteLoop_of_le {bytes : List UInt8} {i : Nat} (h : bytes.length ≤ i) (depth : Nat)
    (quote : Option UInt8) : byteLoop bytes i depth quote = none := by
  rw [byteLoop, dif_neg (Nat.not_lt.2 h)]

/-- Bytes past those of ASCII are read over. -/
theorem byteLoop_inside (hq : IsAsciiQuote quote) (rest : List UInt8) :
    ∀ (inside front : List UInt8), (∀ b ∈ inside, 128 ≤ b.toNat) →
      byteLoop (front ++ (inside ++ rest)) front.length depth (quote.map Char.toUInt8) =
        byteLoop (front ++ (inside ++ rest)) (front ++ inside).length depth
          (quote.map Char.toUInt8)
  | [], front, _ => by rw [List.append_nil]
  | b :: inside, front, h => by
    obtain ⟨hb, hinside⟩ := List.forall_mem_cons.1 h
    have ih := byteLoop_inside hq rest inside (front ++ [b]) hinside
    rw [List.append_assoc, List.append_assoc, List.singleton_append, List.singleton_append,
      List.length_append, List.length_singleton] at ih
    rw [List.cons_append, byteLoop_append_cons, byteStep_of_le hq hb,
      if_neg (by simp [beq_toUInt8_eq_false hb])]
    exact ih

/-- Behind a backslash the loop skips the byte that a character begins with, and reads over the
others. -/
theorem byteLoop_escape (hq : IsAsciiQuote quote) (done : Text) (c : Char) (t : Text) :
    byteLoop (utf8 (done ++ '\\' :: c :: t)) (utf8 done).length depth (quote.map Char.toUInt8) =
      byteLoop (utf8 (done ++ ['\\', c] ++ t)) (utf8 (done ++ ['\\', c])).length depth
        (quote.map Char.toUInt8) := by
  obtain ⟨b, inside, hc, hinside⟩ := exists_utf8EncodeChar c
  have hslash : String.utf8EncodeChar '\\' = ['\\'.toUInt8] := utf8EncodeChar_of_ascii (by decide)
  have hpair : utf8 (done ++ ['\\', c]) = utf8 done ++ ['\\'.toUInt8, b] ++ inside := by
    simp [utf8, hslash, hc]
  have hall : utf8 (done ++ '\\' :: c :: t) =
      utf8 done ++ '\\'.toUInt8 :: (b :: (inside ++ utf8 t)) := by simp [utf8, hslash, hc]
  have hread := @byteLoop_inside depth quote hq (utf8 t) inside (utf8 done ++ ['\\'.toUInt8, b])
    hinside
  rw [hall, byteLoop_append_cons, if_pos (beq_self_eq_true _), utf8_append, hpair]
  simpa using hread

/-- A character that is not escaped is read as the reader of characters does. -/
theorem byteLoop_char (hq : IsAsciiQuote quote) (done : Text) {c : Char} (hc : c ≠ '\\')
    (t : Text) :
    byteLoop (utf8 (done ++ c :: t)) (utf8 done).length depth (quote.map Char.toUInt8) =
      match destinationStep depth quote done.getLast? c with
      | some (depth, quote) =>
        byteLoop (utf8 (done ++ [c] ++ t)) (utf8 (done ++ [c])).length depth
          (quote.map Char.toUInt8)
      | none => some (utf8 (done ++ [c])).length := by
  have hone : utf8 (done ++ [c]) = utf8 done ++ String.utf8EncodeChar c := by simp [utf8]
  have hall : utf8 (done ++ c :: t) = utf8 done ++ (String.utf8EncodeChar c ++ utf8 t) := by
    simp [utf8]
  by_cases hascii : c.toNat < 128
  · have hslash : (c.toUInt8 == '\\'.toUInt8) = false := by
      rw [toUInt8_beq hascii (by decide)]
      exact beq_eq_false_iff_ne.2 hc
    rw [hall, utf8_append (done ++ [c]), hone, utf8EncodeChar_of_ascii hascii,
      List.singleton_append, byteLoop_append_cons, hslash, any_getLast?_utf8,
      byteStep_toUInt8 hq hascii, List.append_assoc, List.singleton_append, List.length_append,
      List.length_singleton, if_neg Bool.false_ne_true]
    cases destinationStep depth quote done.getLast? c <;> rfl
  · rw [hall, utf8_append (done ++ [c]), hone, List.append_assoc,
      destinationStep_of_not_ascii hq hascii]
    exact byteLoop_inside hq (utf8 t) _ _ fun b hb => le_of_mem_utf8EncodeChar hascii hb

/-- Between two characters the loop and the reader of characters come to the same. -/
theorem byteLoop_utf8 {t : Text} (hq : IsAsciiQuote quote) (done : Text) :
    byteLoop (utf8 (done ++ t)) (utf8 done).length depth (quote.map Char.toUInt8) =
      (destinationFrom depth quote done.getLast? t).map fun n => byteLength (done ++ t.take n) := by
  induction t using escape_induction generalizing depth quote done with
  | nil =>
    rw [List.append_nil, byteLoop_of_le (Nat.le_refl _)]
    rfl
  | backslash =>
    have hslash : utf8 ['\\'] = ['\\'.toUInt8] := by decide
    rw [utf8_append, hslash, byteLoop_append_cons, if_pos (beq_self_eq_true _),
      byteLoop_of_le (by simp)]
    rfl
  | escape c t ih =>
    have hlast : (done ++ ['\\', c]).getLast? = some c := by simp
    rw [byteLoop_escape hq, ih hq, destinationFrom_escape, hlast, Option.map_map]
    simp [Function.comp_def]
  | char c t hc ih =>
    rw [byteLoop_char hq done hc, destinationFrom_cons hc]
    cases hstep : destinationStep depth quote done.getLast? c with
    | none => simp [length_utf8]
    | some after =>
      obtain ⟨depth', quote'⟩ := after
      dsimp only
      rw [ih (hq.step hstep), List.getLast?_concat, Option.map_map]
      simp [Function.comp_def]

end Loop

section Closing

variable {depth n : Nat} {quote last : Option Char} {t : Text}

theorem backslashes_concat (t : Text) (c : Char) :
    backslashes (t ++ [c]) = if c = '\\' then backslashes t + 1 else 0 := by
  by_cases hc : c = '\\' <;> simp [backslashes, hc]

/-- Backslashes are read in pairs, so the one before the last parenthesis is the second of its pair,
if there is one. -/
theorem exists_closing (h : destinationFrom depth quote last t = some n) (before : Text)
    (heven : backslashes before % 2 = 0) :
    ∃ u rest, t = u ++ ')' :: rest ∧ n = u.length + 1 ∧ backslashes (before ++ u) % 2 = 0 := by
  induction t using escape_induction generalizing depth n quote last before with
  | nil => cases h
  | backslash => cases h
  | escape c t ih =>
    rw [destinationFrom_escape, Option.map_eq_some_iff] at h
    obtain ⟨m, hm, rfl⟩ := h
    have hpair : backslashes (before ++ ['\\'] ++ [c]) % 2 = 0 := by
      rw [backslashes_concat, backslashes_concat, if_pos rfl]
      split_ifs <;> omega
    obtain ⟨u, rest, rfl, rfl, hu⟩ := ih hm _ hpair
    exact ⟨'\\' :: c :: u, rest, rfl, rfl, by simpa using hu⟩
  | char c t hc ih =>
    rw [destinationFrom_cons hc] at h
    cases hstep : destinationStep depth quote last c with
    | none =>
      rw [hstep] at h
      obtain rfl : 1 = n := Option.some.inj h
      exact ⟨[], t, by rw [eq_of_destinationStep_eq_none hstep]; rfl, rfl, by simpa using heven⟩
    | some after =>
      rw [hstep, Option.map_eq_some_iff] at h
      obtain ⟨m, hm, rfl⟩ := h
      have hone : backslashes (before ++ [c]) % 2 = 0 := by rw [backslashes_concat, if_neg hc]
      obtain ⟨u, rest, rfl, rfl, hu⟩ := ih hm _ hone
      exact ⟨c :: u, rest, rfl, rfl, by simpa using hu⟩

theorem closesAt_of_destinationLength? (h : destinationLength? t = some n) :
    ClosesAt t (byteLength (t.take n)) := by
  obtain ⟨u, rest, rfl, rfl, heven⟩ := exists_closing h [] rfl
  have hclose : utf8 (u ++ ')' :: rest) = utf8 u ++ ')'.toUInt8 :: utf8 rest := by
    rw [utf8_append, utf8_cons, utf8EncodeChar_of_ascii (by decide), List.singleton_append]
  have htake : (u ++ ')' :: rest).take (u.length + 1) = u ++ [')'] := by
    rw [List.append_cons, List.take_left' (by simp)]
  have hlength : byteLength (u ++ [')']) = byteLength u + 1 := by
    rw [byteLength_append]
    rfl
  rw [htake, hlength]
  refine ⟨?_, ?_, ⟨u ++ [')'], rest, by simp, hlength⟩, u, rest, rfl, rfl, heven⟩
  · rw [hclose, List.length_append, List.length_cons, length_utf8]
    omega
  · rw [hclose, Nat.add_sub_cancel, ← length_utf8, List.getElem?_append_right (Nat.le_refl _),
      Nat.sub_self, List.getElem?_cons_zero]

end Closing

section Destinations

/-- Read byte by byte, a destination is as long as it is read in characters. It ends inside the text
and between two characters, behind a parenthesis that is not escaped, and it is as long whatever
stands behind the text. -/
theorem byteLoop_eq_destinationLength? (s : Text) :
    byteLoop (utf8 s) 0 0 none = (destinationLength? s).map (fun n => byteLength (s.take n)) ∧
      ∀ n, byteLoop (utf8 s) 0 0 none = some n →
        ClosesAt s n ∧ ∀ t, byteLoop (utf8 (s ++ t)) 0 0 none = some n := by
  have hread (s : Text) : byteLoop (utf8 s) 0 0 none =
      (destinationLength? s).map (fun n => byteLength (s.take n)) :=
    @byteLoop_utf8 0 none s isAsciiQuote_none []
  refine ⟨hread s, fun n hn => ?_⟩
  rw [hread, Option.map_eq_some_iff] at hn
  obtain ⟨m, hm, rfl⟩ := hn
  refine ⟨closesAt_of_destinationLength? hm, fun t => ?_⟩
  have htake : (s ++ t).take m = s.take m :=
    List.take_append_of_le_length (destinationFrom_take hm).1
  rw [hread, destinationLength?_take hm htake, Option.map_some, htake]

/-- A character of three bytes behind a backslash, a parenthesis in a title and one behind a
backslash. -/
theorem byteLoop_eq_destinationLength?_title :
    byteLoop (utf8 "(\\→\\) \")\")") 0 0 none = some 12 ∧
      ClosesAt "(\\→\\) \")\")" 12 ∧
        ∀ t, byteLoop (utf8 ("(\\→\\) \")\")" ++ t)) 0 0 none = some 12 := by
  have hread : byteLoop (utf8 "(\\→\\) \")\")") 0 0 none = some 12 := by
    rw [(byteLoop_eq_destinationLength? _).1]
    decide +kernel
  exact ⟨hread, (byteLoop_eq_destinationLength? _).2 12 hread⟩

end Destinations

end Reflink

end TidyMark
