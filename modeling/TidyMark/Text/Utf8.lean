import TidyMark.Text.Basic

/-!
# Reading UTF-8

`decode` turns bytes into a text or says where and how they fail to be one. A fault is either an
ill-formed sequence, given with the length of its longest part that could still have become a
character, or an end of the input inside a sequence that could.
-/

namespace TidyMark.Utf8

/-- Why bytes are no text: the number of bytes before the fault, and the length of the ill-formed
sequence there; no length where the input ends too early. -/
structure Fault where
  index : Nat
  length : Option Nat
deriving DecidableEq

/-- The bytes that may follow a leading byte directly, and how many follow it in all. -/
def lead? (b : Nat) : Option (Nat × Nat × Nat) :=
  if 0xC2 ≤ b && b ≤ 0xDF then some (0x80, 0xBF, 1)
  else if b == 0xE0 then some (0xA0, 0xBF, 2)
  else if b == 0xED then some (0x80, 0x9F, 2)
  else if 0xE1 ≤ b && b ≤ 0xEF then some (0x80, 0xBF, 2)
  else if b == 0xF0 then some (0x90, 0xBF, 3)
  else if b == 0xF4 then some (0x80, 0x8F, 3)
  else if 0xF1 ≤ b && b ≤ 0xF3 then some (0x80, 0xBF, 3)
  else none

/-- Reads `n` continuation bytes after `got` bytes of a character with the bits `code`. The first
of them has to lie between `low` and `high`. -/
def continuation (low high : Nat) (code got : Nat) :
    Nat → List UInt8 → Except (Option Nat) (Nat × List UInt8)
  | 0, bytes => .ok (code, bytes)
  | _ + 1, [] => .error none
  | n + 1, b :: rest =>
    if low ≤ b.toNat && b.toNat ≤ high then
      continuation 0x80 0xBF (code * 64 + b.toNat % 64) (got + 1) n rest
    else .error (some got)

/-- The bits that a leading byte gives to its character, when `n` bytes follow it. -/
def leadBits (n b : Nat) : Nat :=
  b % (64 >>> n)

/-- Reads one character; a fault is given without its place. -/
def next (b : UInt8) (rest : List UInt8) : Except (Option Nat) (Char × List UInt8) :=
  if b.toNat < 0x80 then .ok (Char.ofNat b.toNat, rest)
  else
    match lead? b.toNat with
    | none => .error (some 1)
    | some (low, high, n) =>
      (continuation low high (leadBits n b.toNat) 1 n rest).map fun (code, rest) =>
        (Char.ofNat code, rest)

theorem length_continuation {low high code got : Nat} :
    ∀ {n : Nat} {bytes : List UInt8} {value : Nat} {rest : List UInt8},
      continuation low high code got n bytes = .ok (value, rest) → rest.length ≤ bytes.length
  | 0, bytes, value, rest, h => by
    simp only [continuation, Except.ok.injEq, Prod.mk.injEq] at h
    simp [h.2]
  | n + 1, [], value, rest, h => by simp [continuation] at h
  | n + 1, b :: bytes, value, rest, h => by
    simp only [continuation] at h
    split at h
    · exact Nat.le_succ_of_le (length_continuation h)
    · simp at h

theorem length_next {b : UInt8} {rest : List UInt8} {c : Char} {tail : List UInt8}
    (h : next b rest = .ok (c, tail)) : tail.length ≤ rest.length := by
  unfold next at h
  split at h
  · simp only [Except.ok.injEq, Prod.mk.injEq] at h
    simp [h.2]
  · split at h
    · simp at h
    · next low high n _ =>
      cases hc : continuation low high (leadBits n b.toNat) 1 n rest with
      | error e => simp [hc, Except.map] at h
      | ok r =>
        simp only [hc, Except.map, Except.ok.injEq, Prod.mk.injEq] at h
        exact h.2 ▸ length_continuation hc

/-- Reads the characters of bytes that begin at `index`. -/
def decodeFrom (index : Nat) (bytes : List UInt8) : Except Fault Text :=
  match bytes with
  | [] => .ok []
  | b :: rest =>
    match _h : next b rest with
    | .error length => .error ⟨index, length⟩
    | .ok (c, tail) => (decodeFrom (index + c.utf8Size) tail).map (c :: ·)
termination_by bytes.length
decreasing_by
  have := length_next _h
  simp only [List.length_cons]
  omega

def decode (bytes : List UInt8) : Except Fault Text :=
  decodeFrom 0 bytes

def Fault.message (fault : Fault) : String :=
  match fault.length with
  | some n => s!"invalid utf-8 sequence of {n} bytes from index {fault.index}"
  | none => s!"incomplete utf-8 byte sequence from index {fault.index}"

end TidyMark.Utf8
