import Unalix.Foundations.Ascii

/-!
# Hexadecimal texts

A byte is written as two hexadecimal digits, and `decode` reads a text of such pairs, with letters of
either case. An encoder has one digit for each value, so the texts that it writes are in one case;
`map_eq_flatMap_iff` says which texts become the text of an encoder when the case of their letters is
folded: those that are read as the bytes it encodes.
-/

namespace Unalix.Hex

open Ascii

/-- The value of a hexadecimal digit of either case. -/
def digitValue (c : UInt8) : Option ℕ :=
  if 48 ≤ c ∧ c ≤ 57 then some (c.toNat - 48)
  else if 97 ≤ c ∧ c ≤ 102 then some (c.toNat - 87)
  else if 65 ≤ c ∧ c ≤ 70 then some (c.toNat - 55)
  else none

/-- The bytes that a text of pairs of digits stands for. -/
def decode : Bytes → Option Bytes
  | [] => some []
  | [_] => none
  | x :: y :: s => do
    let high ← digitValue x
    let low ← digitValue y
    let bytes ← decode s
    return (16 * high + low).toUInt8 :: bytes

example : decode (str "fF0a") = some [255, 10] := by decide

theorem digitValue_lt {c : UInt8} {n : ℕ} (h : digitValue c = some n) : n < 16 := by
  have hbound : ∀ n ∈ digitValue c, n < 16 :=
    forall_byte (p := fun c => ∀ n ∈ digitValue c, n < 16) (by decide +kernel) c
  exact hbound n h

/-- A pair of digits stands for the byte of which they are the halves. -/
theorem decode_cons_cons_iff {x y b : UInt8} {s bytes : Bytes} :
    decode (x :: y :: s) = some (b :: bytes) ↔ digitValue x = some (b.toNat / 16) ∧
      digitValue y = some (b.toNat % 16) ∧ decode s = some bytes := by
  have hbyte := b.toNat_lt
  constructor
  · intro h
    simp only [decode, Option.bind_eq_bind, Option.bind_eq_some_iff, Option.pure_def,
      Option.some.injEq, List.cons.injEq] at h
    obtain ⟨high, hhigh, low, hlow, bytes', hs, hb, rfl⟩ := h
    have hhighLt := digitValue_lt hhigh
    have hlowLt := digitValue_lt hlow
    have hvalue : b.toNat = 16 * high + low := by
      rw [← hb, UInt8.toNat_ofNat']
      omega
    have hdiv : b.toNat / 16 = high := by omega
    have hmod : b.toNat % 16 = low := by omega
    rw [hdiv, hmod]
    exact ⟨hhigh, hlow, hs⟩
  · rintro ⟨hhigh, hlow, hs⟩
    have hvalue : 16 * (b.toNat / 16) + b.toNat % 16 = b.toNat := by omega
    simp only [decode, hhigh, hlow, hs, hvalue, Option.bind_eq_bind, Option.bind_some]
    exact congrArg (fun b => some (b :: bytes)) UInt8.ofNat_toNat

/-- Only the empty text stands for no bytes. -/
theorem decode_eq_nil_iff {s : Bytes} : decode s = some [] ↔ s = [] := by
  rcases s with _ | ⟨x, _ | ⟨y, s⟩⟩
  · simp [decode]
  · simp [decode]
  · simp [decode, Option.bind_eq_some_iff]

/-- **Folding the case of a text**: it becomes the text of an encoder, whose digits are the folded
ones, if and only if it is read as the bytes that were encoded. -/
theorem map_eq_flatMap_iff {fold : UInt8 → UInt8} {digit : ℕ → UInt8}
    (hfold : ∀ c, ∀ n, n < 16 → (fold c = digit n ↔ digitValue c = some n)) {s bytes : Bytes} :
    (s.map fold = bytes.flatMap fun b => [digit (b.toNat / 16), digit (b.toNat % 16)]) ↔
      decode s = some bytes := by
  induction bytes generalizing s with
  | nil => rw [List.flatMap_nil, List.map_eq_nil_iff, decode_eq_nil_iff]
  | cons b bytes ih =>
    have hbyte := b.toNat_lt
    rw [List.flatMap_cons]
    rcases s with _ | ⟨x, _ | ⟨y, s⟩⟩
    · simp [decode]
    · simp [decode]
    · rw [decode_cons_cons_iff, ← ih, ← hfold x _ (by omega), ← hfold y _ (by omega)]
      simp

end Unalix.Hex
