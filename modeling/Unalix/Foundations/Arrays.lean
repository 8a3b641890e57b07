import Mathlib.Tactic

/-!
# Arrays with checked accesses

An array is the list of all its elements. It is read and written in ranges, and there is no result
when a range does not lie inside of the array, so a program over arrays that has a result has stayed
in all of them.

A write replaces a part of an array by one of the same length (`writeAt_append`). A text is prefixed
in place by moving it and writing the prefix in front of it, if there is room behind it
(`memmove_writeAt`).
-/

namespace Unalix.Arrays

variable {α : Type*}

/-- The elements from `i` on are read, as many as `n`. -/
def readAt (a : List α) (i n : ℕ) : Option (List α) :=
  if i + n ≤ a.length then some ((a.drop i).take n) else none

/-- `memcpy` from another array: the elements from `i` on are overwritten. -/
def writeAt (a : List α) (i : ℕ) (xs : List α) : Option (List α) :=
  if i + xs.length ≤ a.length then some (a.take i ++ (xs ++ a.drop (i + xs.length))) else none

/-- `memmove` in an array. -/
def memmove (a : List α) (dst src n : ℕ) : Option (List α) := (readAt a src n).bind (writeAt a dst)

theorem readAt_append (w x z : List α) : readAt (w ++ (x ++ z)) w.length x.length = some x := by
  have hle : w.length + x.length ≤ (w ++ (x ++ z)).length := by
    simp only [List.length_append]
    omega
  rw [readAt, if_pos hle, List.drop_left, List.take_left]

/-- **A write** replaces what lies there. -/
theorem writeAt_append (w z : List α) {old new : List α} (h : old.length = new.length) :
    writeAt (w ++ (old ++ z)) w.length new = some (w ++ (new ++ z)) := by
  have hle : w.length + new.length ≤ (w ++ (old ++ z)).length := by
    simp only [List.length_append]
    omega
  rw [writeAt, if_pos hle, List.take_left, ← h, ← List.drop_drop, List.drop_left, List.drop_left]

/-- One element is written. -/
theorem writeAt_append_cons (w z : List α) (x y : α) :
    writeAt (w ++ x :: z) w.length [y] = some (w ++ y :: z) :=
  @writeAt_append _ w z [x] [y] rfl

/-- **A prefix in place**: what begins an array is moved by the length of the prefix, and the prefix
is written in front of it. -/
theorem memmove_writeAt {s z p : List α} (h : p.length ≤ z.length) :
    ((memmove (s ++ z) p.length 0 s.length).bind fun a => writeAt a 0 p) =
      some (p ++ (s ++ z.drop p.length)) := by
  have hread : readAt (s ++ z) 0 s.length = some s := readAt_append [] s z
  have hle : p.length + s.length ≤ (s ++ z).length := by
    rw [List.length_append]
    omega
  have hdrop : (s ++ z).drop (p.length + s.length) = z.drop p.length := by
    rw [Nat.add_comm, ← List.drop_drop, List.drop_left]
  have hfront : ((s ++ z).take p.length).length = p.length := by
    rw [List.length_take, List.length_append]
    omega
  rw [memmove, hread, Option.bind_some, writeAt, if_pos hle, hdrop, Option.bind_some]
  exact writeAt_append [] _ hfront

end Unalix.Arrays
