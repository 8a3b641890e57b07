import Unalix.Foundations.Ascii

/-!
# Numbers and addresses (`utils.c`)

`isnumeric`, `intlen` and `isipv6` of `utils.c`. `intlen` counts the digits that a number is printed
with (`length_decimal`). `isipv6` asks `inet_pton` for an IPv6 address: groups of
at most four hexadecimal digits, at most one `::`, and an optional dotted IPv4 tail. What the
parsers need of it is its alphabet (`isAddressChar_of_isipv6`).
-/

namespace Unalix

open Ascii

/-- `isnumeric`: every character is a digit. -/
def isnumeric (s : Bytes) : Bool := s.all isdigit

theorem isnumeric_iff {s : Bytes} : isnumeric s = true ↔ ∀ c ∈ s, isdigit c = true :=
  List.all_eq_true

/-- `intlen`: the divisions by ten until nothing is left, the first of which is made anyway. -/
def intlen (value : ℤ) : ℕ :=
  let val := value.tdiv 10
  if 0 < val then intlen val + 1 else 1
termination_by value.toNat
decreasing_by
  rcases le_total 0 value with hle | hle
  · have := Int.tdiv_eq_ediv_of_nonneg (b := 10) hle
    omega
  · have := Int.tdiv_nonneg (neg_nonneg.2 hle) (show (0 : ℤ) ≤ 10 by decide)
    rw [Int.neg_tdiv] at this
    omega

/-- The conversion of a `size_t` to an `int`. -/
def toInt (size : ℕ) : ℤ := (size : ℤ).bmod (2 ^ 32)

/-- **`intlen` counts the digits** of a number that is not negative. -/
theorem length_decimal (n : ℕ) : (decimal n).length = intlen n := by
  induction n using Nat.strong_induction_on with
  | _ n ih =>
    have hdiv : (n : ℤ).tdiv 10 = ((n / 10 : ℕ) : ℤ) := rfl
    rw [intlen]
    simp only [hdiv]
    split_ifs with hpos
    · have hn : n ≠ 0 := by omega
      have hten : n / 10 ≠ 0 := by omega
      rw [← ih (n / 10) (by omega), decimal, if_neg hn, decimal, if_neg hten,
        Nat.digits_def' (by decide) (Nat.pos_of_ne_zero hn)]
      simp
    · have hlt : n < 10 := by omega
      interval_cases n <;> rfl

/-- A hexadecimal digit. -/
def isxdigit (c : UInt8) : Bool := isdigit c || 65 ≤ c && c ≤ 70 || 97 ≤ c && c ≤ 102

/-! ## `inet_pton` -/

/-- The IPv4 scan of `inet_pton`: `octets` read so far, the last one with value `value`. -/
def inetPton4 (octets value : ℕ) (sawDigit : Bool) : Bytes → Bool
  | [] => octets = 4
  | ch :: src =>
    if isdigit ch then
      if sawDigit && value = 0 || 255 < value * 10 + (ch.toNat - 48) then false
      else if sawDigit then inetPton4 octets (value * 10 + (ch.toNat - 48)) true src
      else if octets = 4 then false
      else inetPton4 (octets + 1) (value * 10 + (ch.toNat - 48)) true src
    else if ch = '.'.toUInt8 && sawDigit then
      if octets = 4 then false else inetPton4 octets 0 false src
    else false

/-- The end of the IPv6 scan: the last group is stored, and the sixteen bytes are filled, the
`::` standing for at least one group. -/
def inetPton6End (tp : ℕ) (colonp : Bool) (xdigitsSeen : ℕ) : Bool :=
  let tp' := if 0 < xdigitsSeen then tp + 2 else tp
  if 16 < tp' then false else if colonp then tp' ≠ 16 else tp' = 16

/-- The IPv6 scan of `inet_pton`: `tp` bytes stored, `colonp` after a `::`, the current group
beginning at `curtok` with `xdigitsSeen` digits read. -/
def inetPton6 (tp : ℕ) (colonp : Bool) (curtok : Bytes) (xdigitsSeen : ℕ) : Bytes → Bool
  | [] => inetPton6End tp colonp xdigitsSeen
  | ch :: src =>
    if isxdigit ch then
      if xdigitsSeen = 4 then false else inetPton6 tp colonp curtok (xdigitsSeen + 1) src
    else if ch = ':'.toUInt8 then
      if xdigitsSeen = 0 then
        if colonp then false else inetPton6 tp true src 0 src
      else if src = [] || 16 < tp + 2 then false
      else inetPton6 (tp + 2) colonp src 0 src
    else if ch = '.'.toUInt8 && tp + 4 ≤ 16 && inetPton4 0 0 false curtok then
      inetPton6End (tp + 4) colonp 0
    else false

/-- `isipv6`: whether `inet_pton(AF_INET6, ...)` accepts the address. -/
def isipv6 (address : Bytes) : Bool :=
  match address with
  | [] => false
  | ch :: src =>
    if ch = ':'.toUInt8 then
      match src with
      | [] => false
      | ch' :: _ => if ch' = ':'.toUInt8 then inetPton6 0 false src 0 src else false
    else inetPton6 0 false address 0 address

example : isipv6 (str "::1") = true := by decide

example : isipv6 (str "1:2:3:4:5:6:127.0.0.1") = true := by decide

example : isipv6 (str "1::2::3") = false := by decide

/-! ## The alphabet of addresses -/

/-- The characters an IPv6 address is written with. -/
def IsAddressChar (c : UInt8) : Prop :=
  isxdigit c = true ∨ c = ':'.toUInt8 ∨ c = '.'.toUInt8

instance (c : UInt8) : Decidable (IsAddressChar c) := by
  unfold IsAddressChar
  infer_instance

theorem isAddressChar_of_inetPton4 {octets value : ℕ} {sawDigit : Bool} {s : Bytes}
    (h : inetPton4 octets value sawDigit s = true) : ∀ c ∈ s, IsAddressChar c := by
  induction s generalizing octets value sawDigit with
  | nil => simp
  | cons ch src ih =>
    rw [List.forall_mem_cons]
    rw [inetPton4] at h
    split at h
    · rename_i hch
      refine ⟨.inl (by simp [isxdigit, hch]), ?_⟩
      split at h <;> try split at h
      all_goals first | cases h | skip
      · exact ih h
      · split at h
        · cases h
        · exact ih h
    · split at h
      · rename_i hch
        simp only [Bool.and_eq_true, decide_eq_true_eq] at hch
        refine ⟨.inr (.inr hch.1), ?_⟩
        split at h
        · cases h
        · exact ih h
      · cases h

theorem isAddressChar_of_inetPton6 {tp : ℕ} {colonp : Bool} {curtok : Bytes} {xdigitsSeen : ℕ}
    {s : Bytes} (h : inetPton6 tp colonp curtok xdigitsSeen s = true) (hs : s <:+ curtok) :
    ∀ c ∈ s, IsAddressChar c := by
  induction s generalizing tp colonp curtok xdigitsSeen with
  | nil => simp
  | cons ch src ih =>
    rw [inetPton6] at h
    split at h
    · rename_i hch
      split at h
      · cases h
      · exact List.forall_mem_cons.2 ⟨.inl hch, ih h ((List.suffix_cons ch src).trans hs)⟩
    · split at h
      · rename_i hch
        refine List.forall_mem_cons.2 ⟨.inr (.inl hch), ?_⟩
        split at h <;> split at h
        · cases h
        · exact ih h List.suffix_rfl
        · cases h
        · exact ih h List.suffix_rfl
      · split at h
        · -- the dotted tail is read from the beginning of its group, so it covers the rest
          rename_i hdot
          simp only [Bool.and_eq_true] at hdot
          exact fun c hc => isAddressChar_of_inetPton4 hdot.2 c (hs.subset hc)
        · cases h

/-- An accepted address is written in hexadecimal digits, colons and dots. -/
theorem isAddressChar_of_isipv6 {s : Bytes} (h : isipv6 s = true) : ∀ c ∈ s, IsAddressChar c := by
  unfold isipv6 at h
  split at h
  · simp at h
  · rename_i ch src
    split at h
    · rename_i hch
      split at h
      · simp at h
      · split at h
        · exact List.forall_mem_cons.2
            ⟨.inr (.inl hch), isAddressChar_of_inetPton6 h List.suffix_rfl⟩
        · simp at h
    · exact isAddressChar_of_inetPton6 h List.suffix_rfl

/-! ## The colons of addresses -/

theorem eq_of_inetPton6End {tp xdigitsSeen : ℕ} (h : inetPton6End tp false xdigitsSeen = true) :
    (if 0 < xdigitsSeen then tp + 2 else tp) = 16 := by
  simp only [inetPton6End, Bool.false_eq_true, if_false] at h
  set tp' := if 0 < xdigitsSeen then tp + 2 else tp
  split at h
  · cases h
  · simpa using h

/-- Before the twelfth byte and without a `::`, an address goes on with a colon. -/
theorem one_le_count_colon {tp : ℕ} {curtok : Bytes} {xdigitsSeen : ℕ} {s : Bytes}
    (h : inetPton6 tp false curtok xdigitsSeen s = true) (htp : tp < 12) :
    1 ≤ s.count ':'.toUInt8 := by
  induction s generalizing tp curtok xdigitsSeen with
  | nil =>
    have := eq_of_inetPton6End h
    split_ifs at this <;> omega
  | cons ch src ih =>
    rw [inetPton6] at h
    split at h
    · split at h
      · cases h
      · exact (ih h htp).trans (List.count_le_count_cons)
    · split at h
      · rename_i hch
        rw [hch, List.count_cons_self]
        omega
      · split at h
        · have := eq_of_inetPton6End h
          simp only [lt_irrefl, if_false] at this
          omega
        · cases h

/-- After a digit, and before the tenth byte, it goes on with two. -/
theorem two_le_count_colon {tp : ℕ} {curtok : Bytes} {xdigitsSeen : ℕ} {s : Bytes}
    (h : inetPton6 tp false curtok xdigitsSeen s = true) (htp : tp < 10)
    (hseen : xdigitsSeen ≠ 0) : 2 ≤ s.count ':'.toUInt8 := by
  induction s generalizing curtok xdigitsSeen with
  | nil =>
    have := eq_of_inetPton6End h
    split_ifs at this <;> omega
  | cons ch src ih =>
    rw [inetPton6] at h
    split at h
    · split at h
      · cases h
      · exact (ih h (by omega)).trans (List.count_le_count_cons)
    · split at h
      · rename_i hch
        split at h
        · cases h
        · have := one_le_count_colon h (by omega)
          rw [hch, List.count_cons_self]
          omega
      · split at h
        · have := eq_of_inetPton6End h
          simp only [lt_irrefl, if_false] at this
          omega
        · cases h

/-- **An address has at least two colons.** -/
theorem two_le_count_colon_of_isipv6 {s : Bytes} (h : isipv6 s = true) :
    2 ≤ s.count ':'.toUInt8 := by
  unfold isipv6 at h
  split at h
  · cases h
  · rename_i ch src
    split at h
    · rename_i hch
      split at h
      · cases h
      · split at h
        · rename_i hch'
          rw [hch, hch', List.count_cons_self, List.count_cons_self]
          omega
        · cases h
    · rename_i hch
      rw [inetPton6] at h
      split at h
      · rw [if_neg (by omega)] at h
        exact (two_le_count_colon h (by omega) (by omega)).trans List.count_le_count_cons
      · split at h
        · have := eq_of_inetPton6End h
          simp at this
        · cases h

end Unalix
