import Mathlib.Tactic

/-!
# Calls with a state

A call runs on a state and ends with a value or an error, and in both cases with a state: what a
failed call has done stays done. `EStateM` is this notion. The rules here take a sequence of calls
apart (`run_bind_eq_ok`, `run_bind_eq_error`), and say which observations of the state a call keeps
whatever its end is (`Keeps`).
-/

namespace Unalix.Calls

variable {ε σ τ α β γ : Type}

/-- The state that a call ends with. -/
def final : EStateM.Result ε σ α → σ
  | .ok _ s => s
  | .error _ s => s

@[simp] theorem final_ok (a : α) (s : σ) : final (.ok a s : EStateM.Result ε σ α) = s := rfl

@[simp] theorem final_error (e : ε) (s : σ) : final (.error e s : EStateM.Result ε σ α) = s := rfl

/-- Whether a call has succeeded. -/
def hasValue : EStateM.Result ε σ α → Bool
  | .ok _ _ => true
  | .error _ _ => false

theorem exists_of_hasValue {r : EStateM.Result ε σ α} (h : hasValue r = true) :
    ∃ a s, r = .ok a s := by
  cases r with
  | ok a s => exact ⟨a, s, rfl⟩
  | error e s => cases h

theorem run_bind (x : EStateM ε σ α) (f : α → EStateM ε σ β) (s : σ) : (x >>= f) s =
    match x s with
    | .ok a s => f a s
    | .error e s => .error e s := rfl

/-- A sequence succeeds when both calls do. -/
theorem run_bind_eq_ok {x : EStateM ε σ α} {f : α → EStateM ε σ β} {s s' : σ} {b : β} :
    (x >>= f) s = .ok b s' ↔ ∃ a s₁, x s = .ok a s₁ ∧ f a s₁ = .ok b s' := by
  rw [run_bind]
  cases x s with
  | ok a s₁ => simp
  | error e s₁ => simp

/-- A sequence fails when the first call does, or the second after it. -/
theorem run_bind_eq_error {x : EStateM ε σ α} {f : α → EStateM ε σ β} {s s' : σ} {e : ε} :
    (x >>= f) s = .error e s' ↔
      x s = .error e s' ∨ ∃ a s₁, x s = .ok a s₁ ∧ f a s₁ = .error e s' := by
  rw [run_bind]
  cases x s with
  | ok a s₁ => simp
  | error e s₁ => simp

@[simp] theorem run_pure_eq_ok {a b : α} {s s' : σ} :
    (pure a : EStateM ε σ α) s = .ok b s' ↔ a = b ∧ s = s' := by
  change EStateM.Result.ok a s = .ok b s' ↔ _
  simp

@[simp] theorem run_pure_ne_error {a : α} {s s' : σ} {e : ε} :
    (pure a : EStateM ε σ α) s ≠ .error e s' := nofun

@[simp] theorem run_throw_eq_error {e e' : ε} {s s' : σ} :
    (throw e : EStateM ε σ α) s = .error e' s' ↔ e = e' ∧ s = s' := by
  change EStateM.Result.error e s = .error e' s' ↔ _
  simp

@[simp] theorem run_throw_ne_ok {e : ε} {a : α} {s s' : σ} :
    (throw e : EStateM ε σ α) s ≠ .ok a s' := nofun

@[simp] theorem run_get_eq_ok {s s' t : σ} :
    (get : EStateM ε σ σ) s = .ok t s' ↔ s = t ∧ s = s' := by
  change EStateM.Result.ok s s = .ok t s' ↔ _
  simp

@[simp] theorem run_set_eq_ok {s s' t : σ} {u : PUnit} :
    (set t : EStateM ε σ PUnit) s = .ok u s' ↔ t = s' := by
  change EStateM.Result.ok PUnit.unit t = .ok u s' ↔ _
  simp

@[simp] theorem run_modify_eq_ok {g : σ → σ} {s s' : σ} {u : PUnit} :
    (modify g : EStateM ε σ PUnit) s = .ok u s' ↔ g s = s' := by
  change EStateM.Result.ok PUnit.unit (g s) = .ok u s' ↔ _
  simp

theorem run_get_bind (k : σ → EStateM ε σ β) (s : σ) : (get >>= k) s = k s s := rfl

theorem run_modify_bind (g : σ → σ) (k : PUnit → EStateM ε σ β) (s : σ) :
    (modify g >>= k) s = k PUnit.unit (g s) := rfl

/-! ## Observations that are kept -/

/-- Whatever the end of the call, the observation `f` of the state is as before. -/
def Keeps (f : σ → γ) (x : EStateM ε σ α) : Prop := ∀ s, f (final (x s)) = f s

namespace Keeps

variable {f : σ → γ} {x : EStateM ε σ α}

theorem ok (h : Keeps f x) {s s' : σ} {a : α} (hx : x s = .ok a s') : f s' = f s := by
  have := h s
  rwa [hx] at this

theorem error (h : Keeps f x) {s s' : σ} {e : ε} (hx : x s = .error e s') : f s' = f s := by
  have := h s
  rwa [hx] at this

theorem pure (a : α) : Keeps f (Pure.pure a : EStateM ε σ α) := fun _ => rfl

theorem throw (e : ε) : Keeps f (MonadExcept.throw e : EStateM ε σ α) := fun _ => rfl

theorem get : Keeps f (MonadState.get : EStateM ε σ σ) := fun _ => rfl

theorem modify {g : σ → σ} (h : ∀ s, f (g s) = f s) :
    Keeps f (modifyGet (fun s => (PUnit.unit, g s)) : EStateM ε σ PUnit) := h

theorem bind (hx : Keeps f x) {k : α → EStateM ε σ β} (hk : ∀ a, Keeps f (k a)) :
    Keeps f (x >>= k) := by
  intro s
  rw [run_bind]
  have hs := hx s
  cases h : x s with
  | ok a s₁ =>
    rw [h] at hs
    exact (hk a s₁).trans hs
  | error e s₁ =>
    rw [h] at hs
    exact hs

/-- An observation that is calculated from one that is kept. -/
theorem comp (h : Keeps f x) (g : γ → τ) : Keeps (fun s => g (f s)) x := fun s =>
  congrArg g (h s)

end Keeps

/-- What is kept by all that comes after a call is known after the call. -/
theorem observe_bind {f : σ → γ} (x : EStateM ε σ α) {k : α → EStateM ε σ β}
    (hk : ∀ a, Keeps f (k a)) (s : σ) : f (final ((x >>= k) s)) = f (final (x s)) := by
  rw [run_bind]
  cases x s with
  | ok a s₁ => exact hk a s₁
  | error e s₁ => rfl

/-! ## Invariants -/

/-- Whatever the end of the call, the state has a property if it had it before. -/
def Preserves (P : σ → Prop) (x : EStateM ε σ α) : Prop := ∀ s, P s → P (final (x s))

namespace Preserves

variable {P : σ → Prop} {x : EStateM ε σ α}

theorem ok (h : Preserves P x) {s s' : σ} {a : α} (hs : P s) (hx : x s = .ok a s') : P s' := by
  have := h s hs
  rwa [hx] at this

theorem error (h : Preserves P x) {s s' : σ} {e : ε} (hs : P s) (hx : x s = .error e s') :
    P s' := by
  have := h s hs
  rwa [hx] at this

theorem pure (a : α) : Preserves P (Pure.pure a : EStateM ε σ α) := fun _ h => h

theorem throw (e : ε) : Preserves P (MonadExcept.throw e : EStateM ε σ α) := fun _ h => h

theorem get : Preserves P (MonadState.get : EStateM ε σ σ) := fun _ h => h

/-- In a sequence the second call may rely on what the first has returned. -/
theorem bind (hx : Preserves P x) {k : α → EStateM ε σ β}
    (hk : ∀ a s s', x s = .ok a s' → Preserves P (k a)) : Preserves P (x >>= k) := by
  intro s hs
  rw [run_bind]
  have h' := hx s hs
  cases h : x s with
  | ok a s₁ =>
    rw [h] at h'
    exact hk a s s₁ h s₁ h'
  | error e s₁ =>
    rw [h] at h'
    exact h'

end Preserves

/-- An observation that is kept preserves what is said about it. -/
theorem Keeps.preserves {f : σ → γ} {x : EStateM ε σ α} (h : Keeps f x) (P : γ → Prop) :
    Preserves (fun s => P (f s)) x := by
  intro s hs
  rw [h s]
  exact hs

/-- The call succeeds on every state. -/
def NeverFails (x : EStateM ε σ α) : Prop := ∀ s e s', x s ≠ .error e s'

theorem NeverFails.pure (a : α) : NeverFails (Pure.pure a : EStateM ε σ α) := fun _ _ _ => nofun

theorem NeverFails.get : NeverFails (MonadState.get : EStateM ε σ σ) := fun _ _ _ => nofun

theorem NeverFails.bind {x : EStateM ε σ α} {k : α → EStateM ε σ β} (hx : NeverFails x)
    (hk : ∀ a, NeverFails (k a)) : NeverFails (x >>= k) := by
  intro s e s' h
  rcases run_bind_eq_error.1 h with h | ⟨a, s₁, -, h⟩
  · exact hx s e s' h
  · exact hk a s₁ e s' h

/-! ## Calls on a part of the state -/

/-- A part of a state that can be replaced. -/
structure Part (σ τ : Type) where
  get : σ → τ
  set : σ → τ → σ

/-- A call on a part of the state. -/
def Part.run (part : Part σ τ) (x : EStateM ε τ α) : EStateM ε σ α := fun s =>
  match x (part.get s) with
  | .ok a t => .ok a (part.set s t)
  | .error e t => .error e (part.set s t)

theorem Part.run_eq_ok {part : Part σ τ} {x : EStateM ε τ α} {s s' : σ} {a : α} :
    part.run x s = .ok a s' ↔ ∃ t, x (part.get s) = .ok a t ∧ part.set s t = s' := by
  rw [run]
  cases x (part.get s) with
  | ok b t => simp
  | error e t => simp

theorem Part.run_eq_error {part : Part σ τ} {x : EStateM ε τ α} {s s' : σ} {e : ε} :
    part.run x s = .error e s' ↔ ∃ t, x (part.get s) = .error e t ∧ part.set s t = s' := by
  rw [run]
  cases x (part.get s) with
  | ok b t => simp
  | error e t => simp

/-- The state that a call on a part ends with. -/
theorem Part.final_run (part : Part σ τ) (x : EStateM ε τ α) (s : σ) :
    final (part.run x s) = part.set s (final (x (part.get s))) := by
  rw [run]
  cases x (part.get s) <;> rfl

/-- A call on a part keeps what does not depend on the part. -/
theorem Part.keeps_run {part : Part σ τ} {f : σ → γ} (h : ∀ s t, f (part.set s t) = f s)
    (x : EStateM ε τ α) : Keeps f (part.run x) := by
  intro s
  rw [run]
  cases x (part.get s) with
  | ok a t => exact h s t
  | error e t => exact h s t

end Unalix.Calls
