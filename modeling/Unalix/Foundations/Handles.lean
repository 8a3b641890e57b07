import Mathlib.Tactic

/-!
# Handles that are acquired and released

A run acquires handles and releases them. `held` follows the handles that are held along its events
and stops at the release of one that is not. In a balanced run every release is of a handle that
is held, and none is held at the end: each handle acquired is released exactly once, and nothing
else is.
-/

namespace Unalix.Handles

/-- An event of a run. -/
inductive Event (H : Type*)
  | acquire (h : H)
  | release (h : H)
  deriving DecidableEq, Repr

variable {H : Type*} [DecidableEq H]

/-- The handles held after some events, nothing when one is released that is not held. -/
def held : List H → List (Event H) → Option (List H)
  | hs, [] => some hs
  | hs, .acquire h :: es => held (h :: hs) es
  | hs, .release h :: es => if h ∈ hs then held (hs.erase h) es else none

/-- Every handle that is acquired is released once, and no other one is released. -/
def Balanced (es : List (Event H)) : Prop := held [] es = some []

instance (es : List (Event H)) : Decidable (Balanced es) :=
  inferInstanceAs (Decidable (_ = _))

theorem held_append (hs : List H) (es es' : List (Event H)) :
    held hs (es ++ es') = (held hs es).bind fun hs' => held hs' es' := by
  induction es generalizing hs with
  | nil => rfl
  | cons e es ih =>
    cases e with
    | acquire h => exact ih (h :: hs)
    | release h =>
      rw [List.cons_append, held, held]
      split
      · exact ih (hs.erase h)
      · rfl

theorem balanced_nil : Balanced ([] : List (Event H)) := rfl

theorem balanced_pair (h : H) : Balanced [.acquire h, .release h] := by
  simp [Balanced, held]

/-- **After a balanced part** the rest decides. -/
theorem Balanced.append_iff {es : List (Event H)} (h : Balanced es) (es' : List (Event H)) :
    Balanced (es ++ es') ↔ Balanced es' := by
  rw [Balanced, held_append, h, Option.bind_some, Balanced]

theorem not_balanced_acquire (h : H) : ¬ Balanced [.acquire h] := by
  simp [Balanced, held]

theorem not_balanced_release (h : H) (es : List (Event H)) : ¬ Balanced (.release h :: es) := by
  simp [Balanced, held]

end Unalix.Handles
