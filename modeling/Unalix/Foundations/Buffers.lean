import Mathlib.Tactic

/-!
# Arrays that strings are written to

An array has a size that was computed before, and a string is put together in it by calls that do
not know that size. Of the array only the string is kept, without its terminator, and how far it
has been written: `reach` is the number of bytes from the beginning of the array up to the last
one written, terminators included. The calls only let it grow, so an array whose reach is at most
its size in the end was never left.

An array that holds a string and was not written beyond its terminator is `Terminated`; there the
question is whether the string fits (`Terminated.fits_iff`).
-/

namespace Unalix.Buffers

variable {α : Type*}

/-- An array, the string in it, and how far it has been written. -/
structure Buffer (α : Type*) where
  size : ℕ
  content : List α := []
  reach : ℕ := 0
  deriving DecidableEq, Repr

namespace Buffer

/-- An array of `n` bytes that nothing has been written to. -/
def ofSize (n : ℕ) : Buffer α := { size := n }

/-- `strcpy`: the string and its terminator are written to the beginning. -/
def strcpy (b : Buffer α) (s : List α) : Buffer α :=
  { b with content := s, reach := max b.reach (s.length + 1) }

/-- `strcat`: they are written over the terminator. -/
def strcat (b : Buffer α) (s : List α) : Buffer α :=
  { b with content := b.content ++ s, reach := max b.reach (b.content.length + s.length + 1) }

/-- `memcpy` to the terminator: it is overwritten, and no other one is written. -/
def memcpyEnd (b : Buffer α) (s : List α) : Buffer α :=
  { b with content := b.content ++ s, reach := max b.reach (b.content.length + s.length) }

/-- `snprintf` with a bound: what does not fit before the terminator is cut off. -/
def snprintf (b : Buffer α) (bound : ℕ) (s : List α) : Buffer α :=
  { b with content := s.take (bound - 1), reach := max b.reach (min bound (s.length + 1)) }

/-- `strncpy`: exactly `count` bytes are written, terminators when the string is shorter. When it is
not shorter, what the array held goes on behind it. -/
def strncpy (b : Buffer α) (s : List α) (count : ℕ) : Buffer α :=
  { b with
    content := if s.length < count then s else s.take count ++ b.content.drop count
    reach := max b.reach count }

/-- A terminator that is written into the string, behind its first `n` characters. -/
def cut (b : Buffer α) (n : ℕ) : Buffer α :=
  { b with content := b.content.take n, reach := max b.reach (n + 1) }

/-- Several calls of `strcat`, one after the other. -/
def strcatAll (b : Buffer α) (strings : List (List α)) : Buffer α := strings.foldl strcat b

/-- No byte behind the array has been written. -/
def Fits (b : Buffer α) : Prop := b.reach ≤ b.size

instance (b : Buffer α) : Decidable b.Fits := inferInstanceAs (Decidable (b.reach ≤ b.size))

/-- The array was written up to the terminator of its string, and no further. -/
def Terminated (b : Buffer α) : Prop := b.reach = b.content.length + 1

@[simp] theorem size_ofSize (n : ℕ) : (ofSize n : Buffer α).size = n := rfl

@[simp] theorem size_strcpy (b : Buffer α) (s : List α) : (b.strcpy s).size = b.size := rfl

@[simp] theorem size_strcat (b : Buffer α) (s : List α) : (b.strcat s).size = b.size := rfl

@[simp] theorem size_memcpyEnd (b : Buffer α) (s : List α) : (b.memcpyEnd s).size = b.size := rfl

@[simp] theorem size_cut (b : Buffer α) (n : ℕ) : (b.cut n).size = b.size := rfl

@[simp] theorem content_strcpy (b : Buffer α) (s : List α) : (b.strcpy s).content = s := rfl

@[simp] theorem content_strcat (b : Buffer α) (s : List α) :
    (b.strcat s).content = b.content ++ s := rfl

@[simp] theorem content_memcpyEnd (b : Buffer α) (s : List α) :
    (b.memcpyEnd s).content = b.content ++ s := rfl

@[simp] theorem content_cut (b : Buffer α) (n : ℕ) : (b.cut n).content = b.content.take n := rfl

/-- The first string of an array. -/
theorem terminated_strcpy (n : ℕ) (s : List α) : ((ofSize n).strcpy s).Terminated := by
  simp [Terminated, strcpy, ofSize]

theorem Terminated.strcat {b : Buffer α} (h : b.Terminated) (s : List α) :
    (b.strcat s).Terminated := by
  rw [Terminated] at h
  simp only [Terminated, Buffer.strcat, h, List.length_append]
  omega

/-- **Strings behind a string** are put together, up to one terminator. -/
theorem Terminated.strcatAll {b : Buffer α} (h : b.Terminated) (strings : List (List α)) :
    (b.strcatAll strings).Terminated ∧ (b.strcatAll strings).size = b.size ∧
      (b.strcatAll strings).content = b.content ++ strings.flatten := by
  induction strings generalizing b with
  | nil => exact ⟨h, rfl, (List.append_nil _).symm⟩
  | cons s strings ih =>
    obtain ⟨hterminated, hsize, hcontent⟩ := ih (h.strcat s)
    refine ⟨hterminated, hsize, ?_⟩
    rw [List.flatten_cons, ← List.append_assoc]
    exact hcontent

/-- **What fits**: a string of as many bytes as the array has, but for the terminator. -/
theorem Terminated.fits_iff {b : Buffer α} (h : b.Terminated) :
    b.Fits ↔ b.content.length + 1 ≤ b.size := by
  rw [Fits, h]

/-- **Bytes behind a string**, in an array that has no byte for a terminator: it is overwritten by the
first one of them, or lies behind the array when there is none. -/
theorem Terminated.append [DecidableEq α] {b : Buffer α} (h : b.Terminated) {s : List α}
    (hsize : b.size = b.content.length + s.length) :
    (if 0 < s.length then b.memcpyEnd s else b).content = b.content ++ s ∧
      (if 0 < s.length then b.memcpyEnd s else b).size = b.size ∧
      (if 0 < s.length then b.memcpyEnd s else b).reach = b.size + if s = [] then 1 else 0 := by
  rw [Terminated] at h
  by_cases hs : s = []
  · subst hs
    rw [List.length_nil, add_zero] at hsize
    exact ⟨(List.append_nil _).symm, rfl, by rw [hsize]; exact h⟩
  · have hpos := List.length_pos_iff.2 hs
    rw [if_pos hpos, if_neg hs]
    refine ⟨rfl, rfl, ?_⟩
    simp only [memcpyEnd, h, hsize]
    omega

/-- A string behind a string, in an array that something else may have been written to. -/
theorem Fits.strcat {b : Buffer α} (h : b.Fits) {s : List α}
    (hs : b.content.length + s.length + 1 ≤ b.size) : (b.strcat s).Fits :=
  max_le h hs

/-- A terminator inside of the array. -/
theorem Fits.cut {b : Buffer α} (h : b.Fits) {n : ℕ} (hn : n + 1 ≤ b.size) : (b.cut n).Fits :=
  max_le h hn

/-- `snprintf` stays within its bound. -/
theorem fits_snprintf {b : Buffer α} (h : b.Fits) {bound : ℕ} (hbound : bound ≤ b.size)
    (s : List α) : (b.snprintf bound s).Fits := by
  rw [Fits] at h
  simp only [Fits, snprintf]
  omega

/-- A string that is shorter than the bound is not cut off. -/
theorem content_snprintf (b : Buffer α) {bound : ℕ} {s : List α} (h : s.length < bound) :
    (b.snprintf bound s).content = s :=
  List.take_of_length_le (by omega)

end Buffer

end Unalix.Buffers
