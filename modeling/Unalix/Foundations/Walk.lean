import Mathlib.Tactic

/-!
# Walks that stop at zero

A counter goes up and down with the letters of a word, and stays at zero where it would go below.
Where it comes to depends on the word only through the sums of its ends: it is the largest of them,
the empty end included (`walk_isGreatest`).
-/

namespace Unalix.Walk

variable {α : Type*} (weight : α → ℤ)

/-- The sum of the letters of a word. -/
def total (word : List α) : ℤ := (word.map weight).sum

/-- One letter: up or down, but not below zero. -/
def step (n : ℤ) (x : α) : ℤ := max 0 (n + weight x)

/-- Where a word leads to from zero. -/
def walk (word : List α) : ℤ := word.foldl (step weight) 0

theorem walk_concat (word : List α) (x : α) :
    walk weight (word ++ [x]) = max 0 (walk weight word + weight x) := by
  simp [walk, step]

theorem total_concat (word : List α) (x : α) :
    total weight (word ++ [x]) = total weight word + weight x := by
  simp [total]

/-- **A walk comes to the largest sum of an end** of its word. -/
theorem walk_isGreatest (word : List α) :
    IsGreatest {n | ∃ e, e <:+ word ∧ total weight e = n} (walk weight word) := by
  induction word using List.reverseRecOn with
  | nil =>
    refine ⟨⟨[], List.nil_suffix, rfl⟩, ?_⟩
    rintro n ⟨e, he, rfl⟩
    rw [List.suffix_nil.1 he]
    exact le_rfl
  | append_singleton word x ih =>
    obtain ⟨⟨e, he, hsum⟩, hbound⟩ := ih
    rw [walk_concat]
    constructor
    · rcases le_total 0 (walk weight word + weight x) with hle | hle
      · rw [max_eq_right hle, ← hsum]
        exact ⟨e ++ [x], List.suffix_concat_iff.2 (.inr ⟨e, rfl, he⟩), total_concat weight e x⟩
      · rw [max_eq_left hle]
        exact ⟨[], List.nil_suffix, rfl⟩
    · rintro n ⟨e', he', rfl⟩
      rcases List.suffix_concat_iff.1 he' with rfl | ⟨e', rfl, hend⟩
      · exact le_max_left _ _
      · rw [total_concat]
        have hle := hbound ⟨e', hend, rfl⟩
        exact le_max_of_le_right (by omega)

end Unalix.Walk
