import Mathlib.Data.List.TakeWhile
import Mathlib.Tactic

/-!
# Strings as the C library sees them

A pointer into a NUL-terminated string is represented by the rest of the string from there:
two pointers into one string are two of its suffixes, the difference of two pointers is the
difference of their lengths, and the null pointer is `none`. With this reading `strstr` is a
function from a string to one of its suffixes.

* `strstr s n` is the rest of `s` from the first occurrence of `n` (`strstr_eq_none_iff`,
  `exists_of_strstr`).
* For a needle of one character the first occurrence cuts the string in two, in one way only
  (`strstr_singleton_eq_some_iff`, `cut_unique`); `before c s` and `after c s` are the two sides,
  and `onward c s` is the second side with its character.
-/

namespace Unalix.CString

variable {α : Type*} [DecidableEq α]

/-! ## Searching -/

/-- `strstr(s, n)`: the rest of `s` from the first occurrence of `n`, if there is one. -/
def strstr : List α → List α → Option (List α)
  | [], n => if n = [] then some [] else none
  | x :: s, n => if n <+: x :: s then some (x :: s) else strstr s n

theorem strstr_eq_none_iff {s n : List α} : strstr s n = none ↔ ¬ n <:+: s := by
  induction s with
  | nil => simp [strstr]
  | cons x s ih =>
    by_cases h : n <+: x :: s
    · simp [strstr, h, h.isInfix]
    · simp [strstr, h, ih, List.infix_cons_iff]

/-- A found occurrence is an occurrence, and nothing before it is one. -/
theorem exists_of_strstr {s n t : List α} (h : strstr s n = some t) :
    ∃ a, s = a ++ t ∧ n <+: t ∧ ∀ b c, a = b ++ c → c ≠ [] → ¬ n <+: c ++ t := by
  induction s with
  | nil =>
    simp only [strstr, Option.ite_none_right_eq_some, Option.some.injEq] at h
    obtain ⟨rfl, rfl⟩ := h
    refine ⟨[], rfl, by simp, ?_⟩
    intro b c hbc hc
    simp_all
  | cons x s ih =>
    by_cases hx : n <+: x :: s
    · simp only [strstr, hx, if_true, Option.some.injEq] at h
      subst h
      refine ⟨[], rfl, hx, ?_⟩
      intro b c hbc hc
      simp_all
    · simp only [strstr, hx, if_false] at h
      obtain ⟨a, rfl, ht, ha⟩ := ih h
      refine ⟨x :: a, rfl, ht, ?_⟩
      intro b c hbc hc
      cases b with
      | nil =>
        rw [List.nil_append] at hbc
        subst hbc
        simpa using hx
      | cons y b =>
        simp only [List.cons_append, List.cons.injEq] at hbc
        exact ha b c hbc.2 hc

theorem length_le_of_strstr {s n t : List α} (h : strstr s n = some t) :
    n.length ≤ t.length ∧ t.length ≤ s.length := by
  obtain ⟨a, rfl, ht, -⟩ := exists_of_strstr h
  exact ⟨ht.length_le, by simp⟩

theorem suffix_of_strstr {s n t : List α} (h : strstr s n = some t) : t <:+ s := by
  obtain ⟨a, rfl, -, -⟩ := exists_of_strstr h
  exact List.suffix_append a t

/-- The occurrence at `t` is found when no earlier position starts one. -/
theorem strstr_eq_some {a t n : List α} (ht : n <+: t)
    (ha : ∀ b c, a = b ++ c → c ≠ [] → ¬ n <+: c ++ t) : strstr (a ++ t) n = some t := by
  induction a with
  | nil =>
    cases t with
    | nil => simp_all [strstr]
    | cons x t => simp [strstr, ht]
  | cons x a ih =>
    have hx : ¬ n <+: x :: (a ++ t) := ha [] (x :: a) rfl (by simp)
    simp only [List.cons_append, strstr, hx, if_false]
    exact ih fun b c hbc hc => ha (x :: b) c (by simp [hbc]) hc

/-- What begins with a character that does not occur before it is found where it is. -/
theorem strstr_cut {c : α} {n a t : List α} (ha : c ∉ a) :
    strstr (a ++ (c :: n ++ t)) (c :: n) = some (c :: n ++ t) := by
  apply strstr_eq_some (List.prefix_append _ _)
  intro b e hbe he hn
  obtain ⟨x, e, rfl⟩ := List.exists_cons_of_ne_nil he
  have hx : c = x := (List.cons_prefix_cons.1 hn).1
  exact ha (by simp [hbe, hx])

/-- What follows a string does not change where an occurrence in it is found. -/
theorem strstr_append_of_eq_some {s n t : List α} (h : strstr s n = some t) (x : List α) :
    strstr (s ++ x) n = some (t ++ x) := by
  obtain ⟨a, rfl, ht, ha⟩ := exists_of_strstr h
  rw [List.append_assoc]
  apply strstr_eq_some (ht.trans (List.prefix_append t x))
  intro b c hbc hc hn
  apply ha b c hbc hc
  have hle : n.length ≤ (c ++ t).length := by
    have := ht.length_le
    rw [List.length_append]
    omega
  rw [← List.append_assoc] at hn
  exact List.prefix_of_prefix_length_le hn (List.prefix_append (c ++ t) x) hle

/-! ## One character -/

omit [DecidableEq α] in
@[simp] theorem singleton_prefix_cons {c x : α} {s : List α} : [c] <+: x :: s ↔ c = x := by
  simp [List.cons_prefix_cons]

theorem strstr_singleton (c : α) (s : List α) : strstr s [c] = match s with
    | [] => none
    | x :: s => if c = x then some (x :: s) else strstr s [c] := by
  cases s <;> simp [strstr]

@[simp] theorem strstr_singleton_eq_none_iff {c : α} {s : List α} :
    strstr s [c] = none ↔ c ∉ s := by
  rw [strstr_eq_none_iff, List.singleton_infix_iff]

/-- Skipping a part without the character. -/
theorem strstr_singleton_append {c : α} {a : List α} (ha : c ∉ a) (s : List α) :
    strstr (a ++ s) [c] = strstr s [c] := by
  induction a with
  | nil => rfl
  | cons x a ih =>
    simp only [List.mem_cons, not_or] at ha
    rw [List.cons_append, strstr_singleton]
    simp only [ha.1, if_false]
    exact ih ha.2

@[simp] theorem strstr_singleton_cons_self (c : α) (s : List α) :
    strstr (c :: s) [c] = some (c :: s) := by
  simp [strstr]

theorem strstr_singleton_cut {c : α} {a : List α} (ha : c ∉ a) (s : List α) :
    strstr (a ++ c :: s) [c] = some (c :: s) := by
  rw [strstr_singleton_append ha, strstr_singleton_cons_self]

theorem strstr_singleton_eq_some_iff {c : α} {s t : List α} :
    strstr s [c] = some t ↔ ∃ a b, s = a ++ c :: b ∧ t = c :: b ∧ c ∉ a := by
  constructor
  · intro h
    have hc : c ∈ s := by
      by_contra hc
      rw [strstr_singleton_eq_none_iff.2 hc] at h
      cases h
    obtain ⟨a, b, rfl, ha⟩ := List.eq_append_cons_of_mem hc
    rw [strstr_singleton_cut ha, Option.some.injEq] at h
    exact ⟨a, b, rfl, h.symm, ha⟩
  · rintro ⟨a, b, rfl, rfl, ha⟩
    exact strstr_singleton_cut ha b

/-- The first occurrence of a character cuts a list in one way only. -/
theorem cut_unique {c : α} {a a' b b' : List α} (h : a ++ c :: b = a' ++ c :: b')
    (ha : c ∉ a) (ha' : c ∉ a') : a = a' ∧ b = b' := by
  have h₁ := strstr_singleton_cut ha b
  rw [h, strstr_singleton_cut ha', Option.some.injEq, List.cons.injEq] at h₁
  obtain ⟨-, rfl⟩ := h₁
  exact ⟨List.append_cancel_right h, rfl⟩

/-! ## The two sides of a first occurrence -/

/-- The part of `s` before the first `c`, all of `s` when there is none. -/
def before (c : α) (s : List α) : List α := s.takeWhile (· ≠ c)

/-- The part of `s` after the first `c`, empty when there is none. -/
def after (c : α) (s : List α) : List α := (s.dropWhile (· ≠ c)).drop 1

theorem ne_of_not_mem {c : α} {a : List α} (ha : c ∉ a) : ∀ x ∈ a, decide (x ≠ c) = true := by
  intro x hx
  simp only [decide_eq_true_eq]
  rintro rfl
  exact ha hx

theorem not_mem_before (c : α) (s : List α) : c ∉ before c s := by
  intro h
  simpa using List.mem_takeWhile_imp h

@[simp] theorem before_cut {c : α} {a : List α} (ha : c ∉ a) (b : List α) :
    before c (a ++ c :: b) = a := by
  unfold before
  rw [List.takeWhile_append_of_pos (ne_of_not_mem ha)]
  simp

@[simp] theorem after_cut {c : α} {a : List α} (ha : c ∉ a) (b : List α) :
    after c (a ++ c :: b) = b := by
  unfold after
  rw [List.dropWhile_append_of_pos (ne_of_not_mem ha)]
  simp

@[simp] theorem before_cons_self (c : α) (b : List α) : before c (c :: b) = [] :=
  before_cut (a := []) (by simp) b

@[simp] theorem after_cons_self (c : α) (b : List α) : after c (c :: b) = b :=
  after_cut (a := []) (by simp) b

theorem before_of_not_mem {c : α} {s : List α} (h : c ∉ s) : before c s = s :=
  List.takeWhile_eq_self_iff.2 (ne_of_not_mem h)

theorem after_of_not_mem {c : α} {s : List α} (h : c ∉ s) : after c s = [] := by
  have hs : s.dropWhile (· ≠ c) = [] :=
    List.dropWhile_eq_nil_iff.2 (ne_of_not_mem h)
  rw [after, hs, List.drop_nil]

/-- The part of `s` from the first `c` on, empty when there is none. -/
def onward (c : α) (s : List α) : List α := s.dropWhile (· ≠ c)

theorem before_append_onward (c : α) (s : List α) : before c s ++ onward c s = s :=
  List.takeWhile_append_dropWhile

theorem onward_of_not_mem {c : α} {s : List α} (h : c ∉ s) : onward c s = [] :=
  List.dropWhile_eq_nil_iff.2 (ne_of_not_mem h)

theorem onward_cut {c : α} {a : List α} (ha : c ∉ a) (b : List α) :
    onward c (a ++ c :: b) = c :: b := by
  unfold onward
  rw [List.dropWhile_append_of_pos (ne_of_not_mem ha)]
  simp

theorem onward_of_mem {c : α} {s : List α} (h : c ∈ s) : onward c s = c :: after c s := by
  obtain ⟨a, b, rfl, ha⟩ := List.eq_append_cons_of_mem h
  rw [onward_cut ha, after_cut ha]

theorem before_append_cut {c : α} {s : List α} (h : c ∈ s) :
    before c s ++ c :: after c s = s := by
  obtain ⟨a, b, rfl, ha⟩ := List.eq_append_cons_of_mem h
  rw [before_cut ha, after_cut ha]

theorem after_append_of_not_mem {c : α} {a : List α} (ha : c ∉ a) (s : List α) :
    after c (a ++ s) = after c s := by
  unfold after
  rw [List.dropWhile_append_of_pos (ne_of_not_mem ha)]

theorem before_append_of_not_mem {c : α} {a : List α} (ha : c ∉ a) (s : List α) :
    before c (a ++ s) = a ++ before c s := by
  unfold before
  rw [List.takeWhile_append_of_pos (ne_of_not_mem ha)]

theorem after_append_of_mem {c : α} {a : List α} (ha : c ∈ a) (s : List α) :
    after c (a ++ s) = after c a ++ s := by
  obtain ⟨b, d, rfl, hb⟩ := List.eq_append_cons_of_mem ha
  rw [List.append_assoc, List.cons_append, after_cut hb, after_cut hb]

theorem before_append_of_mem {c : α} {a : List α} (ha : c ∈ a) (s : List α) :
    before c (a ++ s) = before c a := by
  obtain ⟨b, d, rfl, hb⟩ := List.eq_append_cons_of_mem ha
  rw [List.append_assoc, List.cons_append, before_cut hb, before_cut hb]

/-- What follows a `c` does not count, whether it is the first one or not. -/
theorem before_append_cons (c : α) (a b : List α) : before c (a ++ c :: b) = before c a := by
  by_cases h : c ∈ a
  · exact before_append_of_mem h (c :: b)
  · rw [before_cut h, before_of_not_mem h]

theorem mem_of_mem_before {c d : α} {s : List α} (h : d ∈ before c s) : d ∈ s :=
  (List.takeWhile_subset _) h

theorem mem_of_mem_after {c d : α} {s : List α} (h : d ∈ after c s) : d ∈ s :=
  (List.dropWhile_subset _) (List.mem_of_mem_drop h)

theorem strstr_singleton_eq (c : α) (s : List α) :
    strstr s [c] = if c ∈ s then some (c :: after c s) else none := by
  split
  · rename_i h
    obtain ⟨a, b, rfl, ha⟩ := List.eq_append_cons_of_mem h
    rw [strstr_singleton_cut ha, after_cut ha]
  · rename_i h
    exact strstr_singleton_eq_none_iff.2 h

/-- Of two characters that both occur, the one occurs before the other. -/
theorem cut_cut {c d : α} (hcd : c ≠ d) {s : List α} (hc : c ∈ s) (hd : d ∈ s) :
    (∃ x y z, s = x ++ c :: y ++ d :: z ∧ c ∉ x ∧ d ∉ x ∧ d ∉ y) ∨
      ∃ x y z, s = x ++ d :: y ++ c :: z ∧ c ∉ x ∧ d ∉ x ∧ c ∉ y := by
  obtain ⟨a, b, rfl, ha⟩ := List.eq_append_cons_of_mem hc
  by_cases hda : d ∈ a
  · obtain ⟨x, y, rfl, hx⟩ := List.eq_append_cons_of_mem hda
    simp only [List.mem_append, List.mem_cons, not_or] at ha
    exact .inr ⟨x, y, b, by simp, ha.1, hx, ha.2.2⟩
  · have hdb : d ∈ b := by
      simpa [hda, hcd.symm] using hd
    obtain ⟨y, z, rfl, hy⟩ := List.eq_append_cons_of_mem hdb
    exact .inl ⟨a, y, z, by simp, ha, hda, hy⟩

omit [DecidableEq α] in
/-- A text within the first `k` letters begins at one of them, and ends before the next one. -/
theorem exists_prefix_drop_of_infix_take {s n : List α} {k : ℕ} (h : n <:+: s.take k) :
    ∃ i, i + n.length ≤ k ∧ n <+: s.drop i := by
  obtain ⟨a, b, hab⟩ := h
  have hs : s = a ++ (n ++ (b ++ s.drop k)) := by
    conv_lhs => rw [← List.take_append_drop k s, ← hab]
    simp
  refine ⟨a.length, ?_, ?_⟩
  · have hle := List.length_take_le k s
    rw [← hab] at hle
    simp only [List.length_append] at hle
    omega
  · conv_rhs => rw [hs, List.drop_left]
    exact List.prefix_append _ _

/-! ## The pieces between separators -/

theorem splitOn_of_not_mem {c : α} {s : List α} (h : c ∉ s) : s.splitOn c = [s] :=
  List.splitOn_eq_singleton h

theorem splitOn_cut {c : α} {a : List α} (ha : c ∉ a) (b : List α) :
    (a ++ c :: b).splitOn c = a :: b.splitOn c :=
  List.splitOn_append_cons_self_of_not_mem ha b

/-- The pieces between the separators: the first one is before the first separator, and none has a
separator in it. -/
theorem exists_splitOn (c : α) (s : List α) : ∃ ls,
    s.splitOn c = before c s :: ls ∧ c ∉ before c s ∧ ∀ l ∈ ls, c ∉ l := by
  induction hn : s.length using Nat.strong_induction_on generalizing s with
  | _ n ih =>
    by_cases h : c ∈ s
    · obtain ⟨a, b, rfl, ha⟩ := List.eq_append_cons_of_mem h
      obtain ⟨ls, hls, hfirst, hall⟩ := ih b.length (by simp [← hn]; omega) b rfl
      refine ⟨b.splitOn c, ?_, not_mem_before _ _, ?_⟩
      · rw [splitOn_cut ha, before_cut ha]
      · rw [hls]
        exact List.forall_mem_cons.2 ⟨hfirst, hall⟩
    · exact ⟨[], by rw [splitOn_of_not_mem h, before_of_not_mem h], not_mem_before _ _, nofun⟩

theorem before_mem_splitOn (c : α) (s : List α) : before c s ∈ s.splitOn c := by
  obtain ⟨ls, hsplit, -⟩ := exists_splitOn c s
  rw [hsplit]
  exact List.mem_cons_self

theorem not_mem_of_mem_splitOn {c : α} {s l : List α} (h : l ∈ s.splitOn c) : c ∉ l := by
  obtain ⟨ls, hsplit, hfirst, hall⟩ := exists_splitOn c s
  rw [hsplit] at h
  rcases List.mem_cons.1 h with rfl | h
  · exact hfirst
  · exact hall l h

omit [DecidableEq α] in
/-- A joined list consists of its pieces and the separator. -/
theorem mem_intercalate {sep : List α} {d : α} {ls : List (List α)}
    (h : d ∈ sep.intercalate ls) : d ∈ sep ∨ ∃ l ∈ ls, d ∈ l := by
  induction ls with
  | nil => simp at h
  | cons l ls ih =>
    cases ls with
    | nil =>
      rw [List.intercalate_singleton] at h
      exact .inr ⟨l, by simp, h⟩
    | cons m ls =>
      rw [List.intercalate_cons_cons, List.append_assoc, List.mem_append, List.mem_append] at h
      rcases h with h | h | h
      · exact .inr ⟨l, by simp, h⟩
      · exact .inl h
      · rcases ih h with h | ⟨k, hk, hd⟩
        · exact .inl h
        · exact .inr ⟨k, List.mem_cons_of_mem l hk, hd⟩

omit [DecidableEq α] in
/-- Two pieces that are joined already. -/
theorem intercalate_append_cons (sep a b : List α) (ls : List (List α)) :
    sep.intercalate ((a ++ sep ++ b) :: ls) = sep.intercalate (a :: b :: ls) := by
  cases ls with
  | nil => rw [List.intercalate_singleton, List.intercalate_cons_cons, List.intercalate_singleton]
  | cons l ls =>
    rw [List.intercalate_cons_cons, List.intercalate_cons_cons, List.intercalate_cons_cons,
      List.append_assoc, List.append_assoc, List.append_assoc, List.append_assoc,
      List.append_assoc]

omit [DecidableEq α] in
/-- A join is its first part, and the others with a separator in front. -/
theorem intercalate_cons (c : α) (a : List α) (ls : List (List α)) :
    [c].intercalate (a :: ls) = a ++ (ls.map (c :: ·)).flatten := by
  induction ls generalizing a with
  | nil => simp
  | cons b ls ih => rw [List.intercalate_cons_cons, ih b]; simp

theorem mem_splitOn_of_mem {c d : α} {s : List α} (h : d ∈ s) :
    d = c ∨ ∃ l ∈ s.splitOn c, d ∈ l := by
  rw [show s = [c].intercalate (s.splitOn c) from (List.intercalate_splitOn c).symm] at h
  exact (mem_intercalate h).imp_left List.mem_singleton.1

/-- A replacement of characters that neither adds nor removes separators keeps the pieces. -/
theorem splitOn_map {c : α} {f : α → α} (hf : ∀ x, f x = c ↔ x = c) (s : List α) :
    (s.map f).splitOn c = (s.splitOn c).map (List.map f) := by
  induction s with
  | nil => simp
  | cons x s ih =>
    rw [List.map_cons, List.splitOn_cons_eq_if_modifyHead, List.splitOn_cons_eq_if_modifyHead, ih]
    by_cases hx : x = c
    · simp [hx, (hf c).2 rfl]
    · have hfx : f x ≠ c := fun h => hx ((hf x).1 h)
      rcases s.splitOn c with _ | ⟨l, ls⟩ <;> simp [hx, hfx]

/-! ## Cutting at a class of characters -/

omit [DecidableEq α] in
/-- Every list is a part without characters of a class followed by a tail that is empty or begins
with one. -/
theorem exists_head_tail (p : α → Prop) [DecidablePred p] (s : List α) :
    ∃ a t, s = a ++ t ∧ (∀ c ∈ a, ¬ p c) ∧ (t = [] ∨ ∃ c x, t = c :: x ∧ p c) := by
  induction s with
  | nil => exact ⟨[], [], rfl, by simp, .inl rfl⟩
  | cons x s ih =>
    by_cases hx : p x
    · exact ⟨[], x :: s, rfl, by simp, .inr ⟨x, s, rfl, hx⟩⟩
    · obtain ⟨a, t, rfl, ha, ht⟩ := ih
      exact ⟨x :: a, t, rfl, by simpa [hx] using ha, ht⟩

omit [DecidableEq α] in
/-- The cut before the first character of a class is unique. -/
theorem head_tail_unique {p : α → Prop} {a a' t t' : List α} (h : a ++ t = a' ++ t')
    (ha : ∀ c ∈ a, ¬ p c) (ht : t = [] ∨ ∃ c x, t = c :: x ∧ p c)
    (ha' : ∀ c ∈ a', ¬ p c) (ht' : t' = [] ∨ ∃ c x, t' = c :: x ∧ p c) : a = a' ∧ t = t' := by
  induction a generalizing a' with
  | nil =>
    cases a' with
    | nil => exact ⟨rfl, by simpa using h⟩
    | cons y a' =>
      rcases ht with rfl | ⟨c, x, rfl, hc⟩
      · simp at h
      · simp only [List.nil_append, List.cons_append, List.cons.injEq] at h
        exact absurd (h.1 ▸ hc) (ha' y (by simp))
  | cons x a ih =>
    cases a' with
    | nil =>
      rcases ht' with rfl | ⟨c, z, rfl, hc⟩
      · simp at h
      · simp only [List.nil_append, List.cons_append, List.cons.injEq] at h
        exact absurd (h.1 ▸ hc) (ha x (by simp))
    | cons y a' =>
      simp only [List.cons_append, List.cons.injEq] at h
      obtain ⟨rfl, rfl⟩ := ih h.2 (fun c hc => ha c (by simp [hc])) (fun c hc => ha' c (by simp [hc]))
      exact ⟨by rw [h.1], rfl⟩

end Unalix.CString
