import TidyMark.Text.Basic

/-!
# Escaping

What stands in HTML for the characters of a text, and for those of an address. An escaped text is
safe between tags and between quotation marks; an escaped address is so, too, and holds only
characters that an address may hold.
-/

namespace TidyMark.Html

def escapeChar (c : Char) : Text :=
  if c == '"' then "&quot;"
  else if c == '&' then "&amp;"
  else if c == '<' then "&lt;"
  else if c == '>' then "&gt;"
  else [c]

/-- A text without characters that mean something in HTML. -/
def escape (t : Text) : Text :=
  t.flatMap escapeChar

/-- Whether a character of an address stands for itself. -/
def isAddressChar (c : Char) : Bool :=
  c.isAlphanum || "-_.+!*(),%#@?=;:/$~".toList.contains c

def hexDigit (n : Nat) : Char :=
  (Nat.digitChar n).toUpper

/-- A byte as a percent sign and two hexadecimal digits. -/
def percentByte (b : UInt8) : Text :=
  ['%', hexDigit (b.toNat / 16), hexDigit (b.toNat % 16)]

/-- What is written for a character of an address: an ampersand and an apostrophe belong to
addresses, but not to HTML; of any other character the bytes are written. -/
def escapeAddressChar (c : Char) : Text :=
  if isAddressChar c then [c]
  else if c == '&' then "&amp;"
  else if c == '\'' then "&#x27;"
  else (String.utf8EncodeChar c).flatMap percentByte

/-- An address as the value of an attribute. -/
def escapeAddress (t : Text) : Text :=
  t.flatMap escapeAddressChar

theorem escape_append (s t : Text) : escape (s ++ t) = escape s ++ escape t := by
  simp [escape]

theorem escapeAddress_append (s t : Text) :
    escapeAddress (s ++ t) = escapeAddress s ++ escapeAddress t := by
  simp [escapeAddress]

/-- No tag opens or closes in an escaped text, and no quoted value ends in it. -/
theorem not_mem_escape {c : Char} (hc : c = '<' ∨ c = '>' ∨ c = '"') (t : Text) :
    c ∉ escape t := by
  intro h
  obtain ⟨d, -, h⟩ := List.mem_flatMap.1 h
  unfold escapeChar at h
  split at h
  · rcases hc with rfl | rfl | rfl <;> exact absurd h (by decide)
  split at h
  · rcases hc with rfl | rfl | rfl <;> exact absurd h (by decide)
  split at h
  · rcases hc with rfl | rfl | rfl <;> exact absurd h (by decide)
  split at h
  · rcases hc with rfl | rfl | rfl <;> exact absurd h (by decide)
  rw [List.mem_singleton] at h
  subst h
  rcases hc with rfl | rfl | rfl <;> simp_all

end TidyMark.Html
