import Unalix.Foundations.Calls

/-!
# Calls that do what a calculation does

A call works on a state and can fail; a calculation is a value or an error, without a state.
`Simulates P x r Q E` says that from every state with `P` the call `x` ends as the calculation `r`
does: with a value and a state that `Q` relates to the value of `r`, or with the error of `r` in a
state that `E` relates to it. A sequence of calls is simulated part by part (`Simulates.bind`).

`forRange` and `mapRange` are loops with a counter.
-/

namespace Unalix.Calls

variable {ε σ α β γ δ : Type}

/-- How a call ends, without the state. -/
def outcome : EStateM.Result ε σ α → Except ε α
  | .ok a _ => .ok a
  | .error e _ => .error e

@[simp] theorem outcome_ok (a : α) (s : σ) : outcome (.ok a s : EStateM.Result ε σ α) = .ok a := rfl

@[simp] theorem outcome_error (e : ε) (s : σ) :
    outcome (.error e s : EStateM.Result ε σ α) = .error e := rfl

theorem run_bind_of_ok {x : EStateM ε σ α} {s s' : σ} {a : α} (h : x s = .ok a s')
    (f : α → EStateM ε σ β) : (x >>= f) s = f a s' := by
  rw [run_bind, h]

theorem run_bind_of_error {x : EStateM ε σ α} {s s' : σ} {e : ε} (h : x s = .error e s')
    (f : α → EStateM ε σ β) : (x >>= f) s = .error e s' := by
  rw [run_bind, h]

/-- From a state with `P` the call ends as the calculation `r` does. -/
def Simulates (P : σ → Prop) (x : EStateM ε σ α) (r : Except ε β) (Q : β → α → σ → Prop)
    (E : ε → σ → Prop) : Prop :=
  ∀ s, P s → match r with
    | .ok v => ∃ a s', x s = .ok a s' ∧ Q v a s'
    | .error e => ∃ s', x s = .error e s' ∧ E e s'

namespace Simulates

variable {P : σ → Prop} {x : EStateM ε σ α} {Q : β → α → σ → Prop} {E : ε → σ → Prop}

theorem ok {v : β} (h : Simulates P x (.ok v) Q E) {s : σ} (hs : P s) :
    ∃ a s', x s = .ok a s' ∧ Q v a s' := h s hs

theorem error {e : ε} (h : Simulates P x (.error e : Except ε β) Q E) {s : σ} (hs : P s) :
    ∃ s', x s = .error e s' ∧ E e s' := h s hs

theorem pure {v : β} {a : α} (h : ∀ s, P s → Q v a s) :
    Simulates P (Pure.pure a : EStateM ε σ α) (.ok v) Q E := fun s hs => ⟨a, s, rfl, h s hs⟩

theorem throw {e : ε} (h : ∀ s, P s → E e s) :
    Simulates P (MonadExcept.throw e : EStateM ε σ α) (.error e : Except ε β) Q E :=
  fun s hs => ⟨s, rfl, h s hs⟩

/-- A call that only changes the state stands for no part of the calculation. -/
theorem step {R : γ → σ → Prop} {y : EStateM ε σ γ} {f : γ → EStateM ε σ α} {r : Except ε β}
    (hy : ∀ s, P s → ∃ c s', y s = .ok c s' ∧ R c s') (hf : ∀ c, Simulates (R c) (f c) r Q E) :
    Simulates P (y >>= f) r Q E := by
  intro s hs
  obtain ⟨c, s', hc, hR⟩ := hy s hs
  rw [run_bind_of_ok hc]
  exact hf c s' hR

/-- **A sequence** simulates a sequence, part by part. -/
theorem bind {r : Except ε β} {f : α → EStateM ε σ γ} {g : β → Except ε δ}
    {R : δ → γ → σ → Prop} (hx : Simulates P x r Q E)
    (hf : ∀ v a, r = .ok v → Simulates (Q v a) (f a) (g v) R E) :
    Simulates P (x >>= f) (r >>= g) R E := by
  intro s hs
  cases r with
  | ok v =>
    obtain ⟨a, s', ha, hQ⟩ := hx.ok hs
    rw [run_bind_of_ok ha]
    exact hf v a rfl s' hQ
  | error e =>
    obtain ⟨s', he, hE⟩ := hx.error hs
    exact ⟨s', run_bind_of_error he f, hE⟩

/-- What does not depend on the state is assumed once. -/
theorem assume {p : Prop} {r : Except ε β} (h : p → Simulates P x r Q E) :
    Simulates (fun s => p ∧ P s) x r Q E := fun s hs => h hs.1 s hs.2

/-- What is calculated from the value at the end is no part of the call. -/
theorem map {r : Except ε β} {f : β → δ} {Q' : δ → α → σ → Prop} (h : Simulates P x r Q E)
    (hQ : ∀ v a s, r = .ok v → Q v a s → Q' (f v) a s) :
    Simulates P x (r >>= fun v => Pure.pure (f v)) Q' E := by
  intro s hs
  cases r with
  | ok v =>
    obtain ⟨a, s', ha, hs'⟩ := h.ok hs
    exact ⟨a, s', ha, hQ v a s' rfl hs'⟩
  | error e => exact h.error hs

/-- The state before may be known better, and the state after less well. -/
theorem weaken {r : Except ε β} {P' : σ → Prop} {Q' : β → α → σ → Prop} {E' : ε → σ → Prop}
    (h : Simulates P x r Q E) (hP : ∀ s, P' s → P s) (hQ : ∀ v a s, r = .ok v → Q v a s → Q' v a s)
    (hE : ∀ e s, r = .error e → E e s → E' e s) : Simulates P' x r Q' E' := by
  intro s hs
  cases r with
  | ok v =>
    obtain ⟨a, s', ha, hs'⟩ := h.ok (hP s hs)
    exact ⟨a, s', ha, hQ v a s' rfl hs'⟩
  | error e =>
    obtain ⟨s', he, hs'⟩ := h.error (hP s hs)
    exact ⟨s', he, hE e s' rfl hs'⟩

end Simulates

/-! ## Two calls

`Refines R x y Q E` is the same for two calls, each with a state of its own. -/

section Refines

variable {τ : Type}

/-- From states that `R` relates the call `y` ends as `x` does, in related states. -/
def Refines (R : σ → τ → Prop) (x : EStateM ε σ α) (y : EStateM ε τ β)
    (Q : α → β → σ → τ → Prop) (E : ε → σ → τ → Prop) : Prop :=
  ∀ s t, R s t → match x s with
    | .ok a s' => ∃ b t', y t = .ok b t' ∧ Q a b s' t'
    | .error e s' => ∃ t', y t = .error e t' ∧ E e s' t'

namespace Refines

variable {R : σ → τ → Prop} {x : EStateM ε σ α} {y : EStateM ε τ β} {Q : α → β → σ → τ → Prop}
  {E : ε → σ → τ → Prop}

theorem ok (h : Refines R x y Q E) {s s' : σ} {t : τ} {a : α} (hR : R s t) (hx : x s = .ok a s') :
    ∃ b t', y t = .ok b t' ∧ Q a b s' t' := by
  have := h s t hR
  rwa [hx] at this

theorem error (h : Refines R x y Q E) {s s' : σ} {t : τ} {e : ε} (hR : R s t)
    (hx : x s = .error e s') : ∃ t', y t = .error e t' ∧ E e s' t' := by
  have := h s t hR
  rwa [hx] at this

theorem pure {a : α} {b : β} (h : ∀ s t, R s t → Q a b s t) :
    Refines R (Pure.pure a : EStateM ε σ α) (Pure.pure b : EStateM ε τ β) Q E :=
  fun s t hR => ⟨b, t, rfl, h s t hR⟩

/-- **A sequence** refines a sequence, part by part. -/
theorem bind {f : α → EStateM ε σ γ} {g : β → EStateM ε τ δ} {Q' : γ → δ → σ → τ → Prop}
    (hx : Refines R x y Q E) (hf : ∀ a b, Refines (Q a b) (f a) (g b) Q' E) :
    Refines R (x >>= f) (y >>= g) Q' E := by
  intro s t hR
  rw [run_bind]
  cases hr : x s with
  | ok a s₁ =>
    obtain ⟨b, t₁, hy, hQ⟩ := hx.ok hR hr
    rw [run_bind_of_ok hy]
    exact hf a b s₁ t₁ hQ
  | error e s₁ =>
    obtain ⟨t₁, hy, hE⟩ := hx.error hR hr
    exact ⟨t₁, run_bind_of_error hy g, hE⟩

/-- A call of the second that the first has no part for. -/
theorem step {S : γ → σ → τ → Prop} {z : EStateM ε τ γ} {g : γ → EStateM ε τ β}
    (hz : ∀ s t, R s t → ∃ c t', z t = .ok c t' ∧ S c s t')
    (hg : ∀ c, Refines (S c) x (g c) Q E) : Refines R x (z >>= g) Q E := by
  intro s t hR
  obtain ⟨c, t', hrun, hS⟩ := hz s t hR
  rw [run_bind_of_ok hrun]
  exact hg c s t' hS

/-- Both go on with the states that they have. -/
theorem get {f : σ → EStateM ε σ α} {g : τ → EStateM ε τ β}
    (h : ∀ s t, R s t → Refines (fun s' t' => s' = s ∧ t' = t) (f s) (g t) Q E) :
    Refines R (MonadState.get >>= f) (MonadState.get >>= g) Q E :=
  fun s t hR => h s t hR s t ⟨rfl, rfl⟩

/-- What does not depend on the states is assumed once. -/
theorem assume {p : Prop} (h : p → Refines R x y Q E) :
    Refines (fun s t => p ∧ R s t) x y Q E := fun s t hR => h hR.1 s t hR.2

/-- A change of both states. -/
theorem change {f : σ → σ} {g : τ → τ} {Q : PUnit → PUnit → σ → τ → Prop}
    (h : ∀ s t, R s t → Q ⟨⟩ ⟨⟩ (f s) (g t)) :
    Refines R (modify f : EStateM ε σ PUnit) (modify g : EStateM ε τ PUnit) Q E :=
  fun s t hR => ⟨⟨⟩, g t, rfl, h s t hR⟩

/-- The state before may be known better, and the state after less well. -/
theorem weaken {R' : σ → τ → Prop} {Q' : α → β → σ → τ → Prop} {E' : ε → σ → τ → Prop}
    (h : Refines R x y Q E) (hR : ∀ s t, R' s t → R s t) (hQ : ∀ a b s t, Q a b s t → Q' a b s t)
    (hE : ∀ e s t, E e s t → E' e s t) : Refines R' x y Q' E' := by
  intro s t hs
  cases hr : x s with
  | ok a s' =>
    obtain ⟨b, t', hy, ht'⟩ := h.ok (hR s t hs) hr
    exact ⟨b, t', hy, hQ a b s' t' ht'⟩
  | error e s' =>
    obtain ⟨t', hy, ht'⟩ := h.error (hR s t hs) hr
    exact ⟨t', hy, hE e s' t' ht'⟩

end Refines

end Refines

/-! ## Loops with a counter -/

/-- `for (i = index; i < index + count; i++) body(i);` -/
def forRange (body : ℕ → EStateM ε σ PUnit) : ℕ → ℕ → EStateM ε σ PUnit
  | 0, _ => pure ⟨⟩
  | count + 1, index => do
    body index
    forRange body count (index + 1)

/-- The same loop, with the values of the body in a list. -/
def mapRange (body : ℕ → EStateM ε σ α) : ℕ → ℕ → EStateM ε σ (List α)
  | 0, _ => pure []
  | count + 1, index => do
    let a ← body index
    let as ← mapRange body count (index + 1)
    return a :: as

/-- **A loop over a list**: the body at the place of an element leads from the state with the
elements from there on to the state with those behind it. -/
theorem exists_forRange {body : ℕ → EStateM ε σ PUnit} {I : ℕ → List β → σ → Prop}
    (hstep : ∀ i b l s, I i (b :: l) s → ∃ s', body i s = .ok ⟨⟩ s' ∧ I (i + 1) l s')
    (l : List β) {i : ℕ} {s : σ} (h : I i l s) :
    ∃ s', forRange body l.length i s = .ok ⟨⟩ s' ∧ I (i + l.length) [] s' := by
  induction l generalizing i s with
  | nil => exact ⟨s, rfl, h⟩
  | cons b l ih =>
    obtain ⟨s₁, hbody, h₁⟩ := hstep i b l s h
    obtain ⟨s₂, hloop, h₂⟩ := ih h₁
    refine ⟨s₂, ?_, ?_⟩
    · rw [List.length_cons, forRange, run_bind_of_ok hbody]
      exact hloop
    · rwa [List.length_cons, ← Nat.add_assoc, Nat.add_right_comm]

/-- A loop whose body reads the elements of a list, one after the other. -/
theorem mapRange_eq {body : ℕ → EStateM ε σ α} {f : β → α} (w l : List β) {s : σ}
    (h : ∀ (w' : List β) b l', w ++ l = w' ++ b :: l' → body w'.length s = .ok (f b) s) :
    mapRange body l.length w.length s = .ok (l.map f) s := by
  induction l generalizing w with
  | nil => rfl
  | cons b l ih =>
    have hrest := ih (w ++ [b]) fun w' b' l' heq => h w' b' l' (by rw [← heq]; simp)
    rw [List.length_append, List.length_singleton] at hrest
    rw [List.length_cons, mapRange, run_bind_of_ok (h w b l rfl), run_bind_of_ok hrest]
    rfl

end Unalix.Calls
