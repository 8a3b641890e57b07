import Mathlib.Data.Nat.Digits.Defs
import Mathlib.Data.Nat.Digits.Lemmas
import Mathlib.Data.List.TakeWhile
import Mathlib.Tactic

/-!
# Bytes and decimal numbers

A C `char` is a byte, and a string is the list of its bytes without the terminator. The character
classes are those of the C locale. `atoi` converts through a 64-bit `long`, which saturates, and
truncates the result to a 32-bit `int`; `decimal` is what `%i` and `%zu` print for a natural
number. The two directions meet in `digitsValue_decimal`.
-/

namespace Unalix

/-- The bytes of a C string, without its terminator. -/
abbrev Bytes := List UInt8

/-- The bytes of a string constant. -/
def str (s : String) : Bytes := s.toList.map Char.toUInt8

/-- A property of the bytes of a string is decided byte by byte, not by going through all bytes that
there are. -/
instance (priority := 2000) decidableForallMem (p : UInt8 → Prop) [DecidablePred p] (s : Bytes) :
    Decidable (∀ c ∈ s, p c) :=
  List.decidableBAll p s

/-- What holds of the 256 bytes holds of every byte. -/
theorem forall_byte {p : UInt8 → Prop} (h : ∀ n : ℕ, n < 256 → p n.toUInt8) (c : UInt8) : p c := by
  have hc := h c.toNat c.toNat_lt
  rwa [show c.toNat.toUInt8 = c by simp] at hc

/-- The C string at the beginning of a buffer. -/
def cString (buffer : Bytes) : Bytes := buffer.takeWhile (· ≠ 0)

theorem length_cString_le (buffer : Bytes) : (cString buffer).length ≤ buffer.length :=
  (List.takeWhile_prefix _).length_le

namespace Ascii

/-! ## Character classes -/

def isdigit (c : UInt8) : Bool := 48 ≤ c && c ≤ 57

def isupper (c : UInt8) : Bool := 65 ≤ c && c ≤ 90

def islower (c : UInt8) : Bool := 97 ≤ c && c ≤ 122

def isalpha (c : UInt8) : Bool := isupper c || islower c

def isalnum (c : UInt8) : Bool := isalpha c || isdigit c

def isspace (c : UInt8) : Bool := c = 32 || 9 ≤ c && c ≤ 13

/-- The case folding of the parsers: `ch + 32` for an upper-case letter. -/
def lower (c : UInt8) : UInt8 := if isupper c then c + 32 else c

theorem lower_of_not_isupper {c : UInt8} (h : isupper c = false) : lower c = c := by
  simp [lower, h]

theorem isupper_lower (c : UInt8) : isupper (lower c) = false := by
  unfold lower
  split
  · simp only [isupper, Bool.and_eq_true, decide_eq_true_eq, Bool.and_eq_false_iff,
      decide_eq_false_iff_not] at *
    grind
  · simpa using ‹¬ isupper c = true›

@[simp] theorem lower_lower (c : UInt8) : lower (lower c) = lower c :=
  lower_of_not_isupper (isupper_lower c)

theorem isalpha_lower {c : UInt8} (h : isalpha c = true) : isalpha (lower c) = true := by
  unfold lower
  split
  · simp only [isalpha, isupper, islower, Bool.and_eq_true, Bool.or_eq_true,
      decide_eq_true_eq] at *
    grind
  · exact h

/-- A character that is no letter is not the lower case of another one. -/
theorem lower_eq_iff {c d : UInt8} (hd : isalpha d = false) : lower c = d ↔ c = d := by
  unfold lower
  split
  · rename_i h
    refine iff_of_false ?_ ?_
    · rintro rfl
      simp only [isalpha, isupper, islower, Bool.and_eq_true, Bool.or_eq_false_iff,
        Bool.and_eq_false_iff, decide_eq_true_eq, decide_eq_false_iff_not] at *
      grind
    · rintro rfl
      simp [isalpha, h] at hd
  · rfl

theorem isalnum_lower {c : UInt8} (h : isalnum c = true) : isalnum (lower c) = true := by
  unfold lower
  split
  · simp only [isalnum, isalpha, isupper, islower, isdigit, Bool.and_eq_true, Bool.or_eq_true,
      decide_eq_true_eq] at *
    grind
  · exact h

/-! ## Reading numbers -/

/-- The number a string of decimal digits writes. -/
def digitsValue (s : Bytes) : ℕ := s.foldl (fun n c => 10 * n + (c.toNat - 48)) 0

/-- `strtol` saturates at the ends of a 64-bit `long`. -/
def clampLong (n : ℤ) : ℤ := max (-2 ^ 63) (min n (2 ^ 63 - 1))

/-- `atoi`: white space, a sign and digits, through a `long`, truncated to an `int`. -/
def atoi (s : Bytes) : ℤ :=
  let value (s : Bytes) : ℤ := digitsValue (s.takeWhile isdigit)
  let long := match s.dropWhile isspace with
    | [] => 0
    | c :: s => if c = 45 then -value s else if c = 43 then value s else value (c :: s)
  (clampLong long).bmod (2 ^ 32)

theorem isspace_of_isdigit {c : UInt8} (h : isdigit c = true) : isspace c = false := by
  simp only [isdigit, isspace, Bool.and_eq_true, decide_eq_true_eq, Bool.or_eq_false_iff,
    Bool.and_eq_false_iff, decide_eq_false_iff_not] at *
  grind

/-- On a string of digits, `atoi` is the number they write, up to the two conversions. -/
theorem atoi_of_isdigit {s : Bytes} (h : ∀ c ∈ s, isdigit c = true) :
    atoi s = (clampLong (digitsValue s)).bmod (2 ^ 32) := by
  cases s with
  | nil => rfl
  | cons c s =>
    have hc : isdigit c = true := h c (by simp)
    have hsign : c ≠ 45 ∧ c ≠ 43 := by
      constructor <;> rintro rfl <;> simp [isdigit] at hc
    have hspace : (c :: s).dropWhile isspace = c :: s :=
      List.dropWhile_cons_of_neg (by simp [isspace_of_isdigit hc])
    have htake : (c :: s).takeWhile isdigit = c :: s := List.takeWhile_eq_self_iff.2 h
    simp only [atoi, hspace, htake, hsign.1, hsign.2, if_false]

/-- No digits of a number that fits an `int` are lost. -/
theorem atoi_of_lt {s : Bytes} (h : ∀ c ∈ s, isdigit c = true) (hs : digitsValue s < 2 ^ 31) :
    atoi s = digitsValue s := by
  have hclamp : clampLong (digitsValue s) = digitsValue s := by
    unfold clampLong
    omega
  rw [atoi_of_isdigit h, hclamp]
  exact Int.bmod_eq_of_le (by omega) (by omega)

/-! ## Printing numbers -/

/-- A natural number in decimal, as `%i` and `%zu` print it. -/
def decimal (n : ℕ) : Bytes :=
  if n = 0 then [48] else (Nat.digits 10 n).reverse.map fun d => 48 + d.toUInt8

theorem isdigit_add {d : ℕ} (h : d < 10) :
    isdigit (48 + d.toUInt8) = true ∧ (48 + d.toUInt8).toNat - 48 = d := by
  have hd : (d.toUInt8).toNat = d := by
    simp only [UInt8.toNat_ofNat']
    omega
  have hsum : (48 + d.toUInt8).toNat = 48 + d := by
    simp only [UInt8.toNat_add, hd, UInt8.toNat_ofNat]
    omega
  refine ⟨?_, by omega⟩
  simp only [isdigit, Bool.and_eq_true, decide_eq_true_eq, UInt8.le_iff_toNat_le, hsum,
    UInt8.toNat_ofNat]
  omega

theorem isdigit_decimal (n : ℕ) : ∀ c ∈ decimal n, isdigit c = true := by
  intro c hc
  unfold decimal at hc
  split at hc
  · rw [List.mem_singleton] at hc
    subst hc
    decide
  · simp only [List.mem_map, List.mem_reverse] at hc
    obtain ⟨d, hd, rfl⟩ := hc
    exact (isdigit_add (Nat.digits_lt_base (by omega) hd)).1

theorem digitsValue_append_singleton (s : Bytes) (c : UInt8) :
    digitsValue (s ++ [c]) = 10 * digitsValue s + (c.toNat - 48) := by
  simp [digitsValue]

theorem digitsValue_reverse_map (ds : List ℕ) (h : ∀ d ∈ ds, d < 10) :
    digitsValue (ds.reverse.map fun d => 48 + d.toUInt8) = Nat.ofDigits 10 ds := by
  induction ds with
  | nil => rfl
  | cons d ds ih =>
    rw [List.reverse_cons, List.map_append, List.map_singleton, digitsValue_append_singleton,
      ih fun e he => h e (by simp [he]), (isdigit_add (h d (by simp))).2, Nat.ofDigits_cons]
    ring

/-- Reading a printed number gives the number back. -/
@[simp] theorem digitsValue_decimal (n : ℕ) : digitsValue (decimal n) = n := by
  unfold decimal
  split
  · simp [digitsValue, *]
  · rw [digitsValue_reverse_map _ fun d hd => Nat.digits_lt_base (by omega) hd,
      Nat.ofDigits_digits]

end Ascii

end Unalix
