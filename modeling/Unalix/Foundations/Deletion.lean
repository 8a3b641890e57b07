import Mathlib.Tactic

/-!
# Deleting every match

A matcher says how long the match is that begins at a place of a text, given the rest of the text
from there and whether the place is the beginning. `deleteAll` goes through the text and takes out
every match it comes to; the next one is looked for behind it. So the matches taken out are the
leftmost ones and do not overlap. `firstMatch` finds the first of them.

`Cut` is a text that was cut into matches and what stands between them, wherever the matches come
from.
-/

namespace Unalix.Deletion

variable {α : Type*} {m : Bool → List α → ℕ}

/-- Take out every match. `skip` characters of the last one are still to come, and `first` tells
the beginning of the text; a match of length `0` is none. -/
def deleteAll (m : Bool → List α → ℕ) : ℕ → Bool → List α → List α
  | _, _, [] => []
  | skip + 1, _, _ :: s => deleteAll m skip false s
  | 0, first, x :: s =>
    match m first (x :: s) with
    | 0 => x :: deleteAll m 0 false s
    | n + 1 => deleteAll m n false s

/-- The first match: where it begins and ends, when `i` characters are in front of the text. -/
def firstMatch (m : Bool → List α → ℕ) : ℕ → Bool → List α → Option (ℕ × ℕ)
  | _, _, [] => none
  | i, first, x :: s =>
    match m first (x :: s) with
    | 0 => firstMatch m (i + 1) false s
    | n + 1 => some (i, i + n + 1)

@[simp] theorem deleteAll_nil (skip : ℕ) (first : Bool) : deleteAll m skip first [] = [] := by
  cases skip <;> rfl

/-- **What is left is a subsequence.** -/
theorem deleteAll_sublist (m : Bool → List α → ℕ) (skip : ℕ) (first : Bool) (s : List α) :
    (deleteAll m skip first s).Sublist s := by
  induction s generalizing skip first with
  | nil => simp
  | cons x s ih =>
    cases skip with
    | succ skip => exact (ih skip false).cons x
    | zero =>
      rw [deleteAll]
      split
      · exact (ih 0 false).cons_cons x
      · rename_i n _
        exact (ih n false).cons x

/-- The rest of a match is passed over. -/
theorem deleteAll_skip {skip : ℕ} (h : 0 < skip) (first : Bool) (s : List α) :
    deleteAll m skip first s = deleteAll m 0 false (s.drop skip) := by
  induction s generalizing skip first with
  | nil => simp
  | cons x s ih =>
    obtain ⟨n, rfl⟩ := Nat.exists_eq_succ_of_ne_zero h.ne'
    rw [deleteAll, List.drop_succ_cons]
    rcases Nat.eq_zero_or_pos n with rfl | hn
    · rfl
    · exact ih hn false

/-- A match at the beginning is taken out. -/
theorem deleteAll_of_match {first : Bool} {s : List α} (h : 0 < m first s) (hs : s ≠ []) :
    deleteAll m 0 first s = deleteAll m 0 false (s.drop (m first s)) := by
  obtain ⟨x, s, rfl⟩ := List.exists_cons_of_ne_nil hs
  obtain ⟨n, hn⟩ := Nat.exists_eq_succ_of_ne_zero h.ne'
  rw [deleteAll, hn]
  exact deleteAll_skip (Nat.succ_pos n) first (x :: s)

/-- No match begins at the beginning. -/
theorem deleteAll_of_not_match {first : Bool} {x : α} {s : List α} (h : m first (x :: s) = 0) :
    deleteAll m 0 first (x :: s) = x :: deleteAll m 0 false s := by
  rw [deleteAll, h]

/-- **Two parts**: no match that begins in the first one depends on the second or goes into it. -/
theorem deleteAll_append {a s : List α}
    (hlocal : ∀ first c, c <:+ a → c ≠ [] → m first (c ++ s) = m first c ∧ m first c ≤ c.length)
    {skip : ℕ} (hskip : skip ≤ a.length) (first : Bool) :
    deleteAll m skip first (a ++ s) =
      deleteAll m skip first a ++ deleteAll m 0 (first && a.isEmpty) s := by
  induction a generalizing skip first with
  | nil =>
    obtain rfl := Nat.le_zero.1 hskip
    simp
  | cons x a ih =>
    have hrest (first : Bool) (c : List α) (hc : c <:+ a) :=
      hlocal first c (hc.trans (List.suffix_cons x a))
    have hbool : (first && (x :: a).isEmpty) = (false && a.isEmpty) := by simp
    rw [hbool, List.cons_append]
    cases skip with
    | succ skip => exact ih hrest (Nat.le_of_succ_le_succ hskip) false
    | zero =>
      obtain ⟨heq, hle⟩ := hlocal first (x :: a) List.suffix_rfl (List.cons_ne_nil x a)
      rw [List.cons_append] at heq
      rw [deleteAll, deleteAll, heq]
      cases hm : m first (x :: a) with
      | zero => exact congrArg (x :: ·) (ih hrest (Nat.zero_le _) false)
      | succ n =>
        rw [hm, List.length_cons] at hle
        exact ih hrest (Nat.le_of_succ_le_succ hle) false

/-! ## The first match -/

theorem firstMatch_cons (m : Bool → List α → ℕ) (i : ℕ) (first : Bool) (x : α) (s : List α) :
    (firstMatch m i first (x :: s)).isSome =
      (decide (0 < m first (x :: s)) || (firstMatch m (i + 1) false s).isSome) := by
  rw [firstMatch]
  cases m first (x :: s) <;> simp

/-- **Without a match nothing is deleted.** -/
theorem deleteAll_of_firstMatch {i : ℕ} {first : Bool} {s : List α}
    (h : (firstMatch m i first s).isSome = false) : deleteAll m 0 first s = s := by
  induction s generalizing i first with
  | nil => simp
  | cons x s ih =>
    rw [firstMatch_cons, Bool.or_eq_false_iff] at h
    rw [deleteAll_of_not_match (by simpa using h.1), ih h.2]

/-- There is a match when one begins at some place. -/
theorem isSome_firstMatch_iff {i : ℕ} {s : List α} :
    (firstMatch m i false s).isSome = true ↔ ∃ c, c <:+ s ∧ c ≠ [] ∧ 0 < m false c := by
  induction s generalizing i with
  | nil => simp [firstMatch]
  | cons x s ih =>
    rw [firstMatch_cons, Bool.or_eq_true, decide_eq_true_iff, ih]
    constructor
    · rintro (hm | ⟨c, hc, hne, hm⟩)
      · exact ⟨x :: s, List.suffix_rfl, List.cons_ne_nil x s, hm⟩
      · exact ⟨c, hc.trans (List.suffix_cons x s), hne, hm⟩
    · rintro ⟨c, hc, hne, hm⟩
      rcases List.suffix_cons_iff.1 hc with rfl | hc
      · exact .inl hm
      · exact .inr ⟨c, hc, hne, hm⟩

/-- **With a match something is deleted**: fewer characters of a kind are left, when every match has
one of them. -/
theorem countP_deleteAll_lt {p : α → Bool}
    (hm : ∀ first s, 0 < m first s → 0 < (s.take (m first s)).countP p)
    {i : ℕ} {first : Bool} {s : List α} (h : (firstMatch m i first s).isSome = true) :
    (deleteAll m 0 first s).countP p < s.countP p := by
  induction s generalizing i first with
  | nil => simp [firstMatch] at h
  | cons x s ih =>
    rcases Nat.eq_zero_or_pos (m first (x :: s)) with hzero | hpos
    · rw [firstMatch_cons, hzero] at h
      have hlt := ih (by simpa using h)
      rw [deleteAll_of_not_match hzero, List.countP_cons, List.countP_cons]
      omega
    · have htake := hm first (x :: s) hpos
      have hrest : (deleteAll m 0 false ((x :: s).drop (m first (x :: s)))).countP p ≤
          ((x :: s).drop (m first (x :: s))).countP p :=
        (deleteAll_sublist m 0 false _).countP_le
      have hsplit : (x :: s).countP p = ((x :: s).take (m first (x :: s))).countP p +
          ((x :: s).drop (m first (x :: s))).countP p := by
        rw [← List.countP_append, List.take_append_drop]
      rw [deleteAll_of_match hpos (List.cons_ne_nil x s)]
      omega

/-! ## Cuts -/

/-- A text cut into pieces, each a part that is kept and a match behind it, and the rest. -/
structure Cut (s : List α) where
  pieces : List (List α × List α)
  rest : List α
  covers : (pieces.flatMap fun piece => piece.1 ++ piece.2) ++ rest = s

namespace Cut

variable {s : List α}

/-- The text without the matches. -/
def deleted (cut : Cut s) : List α := cut.pieces.flatMap Prod.fst ++ cut.rest

theorem deleted_sublist (cut : Cut s) : cut.deleted.Sublist s := by
  have hpieces (pieces : List (List α × List α)) : (pieces.flatMap Prod.fst).Sublist
      (pieces.flatMap fun piece => piece.1 ++ piece.2) := by
    induction pieces with
    | nil => exact List.Sublist.refl _
    | cons piece pieces ih =>
      rw [List.flatMap_cons, List.flatMap_cons]
      exact (List.sublist_append_left _ _).append ih
  conv_rhs => rw [← cut.covers]
  exact (hpieces cut.pieces).append (List.Sublist.refl _)

/-- **Matches of no character** leave the text as it was. -/
theorem deleted_of_forall_nil (cut : Cut s) (h : ∀ piece ∈ cut.pieces, piece.2 = []) :
    cut.deleted = s := by
  have hpieces (pieces : List (List α × List α)) (h : ∀ piece ∈ pieces, piece.2 = []) :
      pieces.flatMap Prod.fst = pieces.flatMap fun piece => piece.1 ++ piece.2 := by
    induction pieces with
    | nil => rfl
    | cons piece pieces ih =>
      rw [List.flatMap_cons, List.flatMap_cons, h piece List.mem_cons_self, List.append_nil,
        ih fun piece hpiece => h piece (List.mem_cons_of_mem _ hpiece)]
  rw [deleted, hpieces cut.pieces h, cut.covers]

/-- A text that has not become shorter is the same. -/
theorem deleted_of_length_le (cut : Cut s) (h : s.length ≤ cut.deleted.length) : cut.deleted = s :=
  cut.deleted_sublist.eq_of_length_le h

end Cut

end Unalix.Deletion
