import Unalix.Foundations.CString

/-!
# Lines that end with a pair of characters

Lines are separated by a pair of different characters, such as CR LF. `splitPair c d s` are the
lines of `s`. Lines in which the pair does not occur are found again after they have been joined
(`splitPair_intercalate`), every line found is one in which the pair does not occur
(`not_infix_of_mem_splitPair`), and the first empty line after lines that are not empty is found
by `strstr` (`strstr_emptyLine`).
-/

namespace Unalix.CString

variable {α : Type*} [DecidableEq α]

/-- Put a character before the first line. -/
def consHead (x : α) : List (List α) → List (List α)
  | [] => [[x]]
  | l :: ls => (x :: l) :: ls

/-- The lines between the occurrences of the pair `c d`. -/
def splitPair (c d : α) : List α → List (List α)
  | [] => [[]]
  | [x] => [[x]]
  | x :: y :: s => if x = c ∧ y = d then [] :: splitPair c d s
    else consHead x (splitPair c d (y :: s))

variable {c d : α}

theorem splitPair_cut (s : List α) : splitPair c d (c :: d :: s) = [] :: splitPair c d s := by
  simp [splitPair]

/-- A character that does not begin a separator belongs to the first line. -/
theorem splitPair_cons {x : α} {s : List α} (h : x ≠ c ∨ s.head? ≠ some d) :
    splitPair c d (x :: s) = consHead x (splitPair c d s) := by
  cases s with
  | nil => rfl
  | cons y s =>
    have hno : ¬ (x = c ∧ y = d) := by
      rintro ⟨rfl, rfl⟩
      simp at h
    rw [splitPair, if_neg hno]

theorem not_infix_cons {x : α} {l : List α} (h : ¬ [c, d] <:+: x :: l) :
    (x ≠ c ∨ l.head? ≠ some d) ∧ ¬ [c, d] <:+: l := by
  refine ⟨?_, fun hl => h (List.infix_cons hl)⟩
  by_contra hno
  simp only [not_or, not_not] at hno
  obtain ⟨rfl, hhead⟩ := hno
  obtain ⟨m, rfl⟩ := List.head?_eq_some_iff.1 hhead
  exact h (List.IsPrefix.isInfix ⟨m, rfl⟩)

theorem splitPair_of_not_infix {l : List α} (h : ¬ [c, d] <:+: l) : splitPair c d l = [l] := by
  induction l with
  | nil => rfl
  | cons x l ih =>
    obtain ⟨hx, hl⟩ := not_infix_cons h
    rw [splitPair_cons hx, ih hl]
    rfl

/-- The first line ends at the first separator. -/
theorem splitPair_append (hcd : c ≠ d) {l : List α} (h : ¬ [c, d] <:+: l) (s : List α) :
    splitPair c d (l ++ c :: d :: s) = l :: splitPair c d s := by
  induction l with
  | nil => exact splitPair_cut s
  | cons x l ih =>
    obtain ⟨hx, hl⟩ := not_infix_cons h
    have hx' : x ≠ c ∨ (l ++ c :: d :: s).head? ≠ some d := by
      cases l with
      | nil =>
        right
        simpa using hcd
      | cons y l => exact hx
    rw [List.cons_append, splitPair_cons hx', ih hl]
    rfl

theorem splitPair_ne_nil (s : List α) : splitPair c d s ≠ [] := by
  induction s with
  | nil => simp [splitPair]
  | cons x s ih =>
    by_cases h : x ≠ c ∨ s.head? ≠ some d
    · rw [splitPair_cons h]
      cases hs : splitPair c d s <;> simp [consHead]
    · simp only [not_or, not_not] at h
      obtain ⟨rfl, hhead⟩ := h
      obtain ⟨m, rfl⟩ := List.head?_eq_some_iff.1 hhead
      simp [splitPair_cut]

/-- **Joined lines are found again.** -/
theorem splitPair_intercalate (hcd : c ≠ d) {ls : List (List α)} (hls : ls ≠ [])
    (h : ∀ l ∈ ls, ¬ [c, d] <:+: l) : splitPair c d ([c, d].intercalate ls) = ls := by
  induction ls with
  | nil => exact absurd rfl hls
  | cons l ls ih =>
    cases ls with
    | nil =>
      rw [List.intercalate_singleton]
      exact splitPair_of_not_infix (h l (by simp))
    | cons m ls =>
      have hih := ih (by simp) fun k hk => h k (List.mem_cons_of_mem l hk)
      rw [List.intercalate_cons_cons, List.append_assoc]
      show splitPair c d (l ++ c :: d :: [c, d].intercalate (m :: ls)) = l :: m :: ls
      rw [splitPair_append hcd (h l (by simp)), hih]

/-- The first line that is found is where the text begins. -/
theorem prefix_of_splitPair {s l : List α} {ls : List (List α)} (h : splitPair c d s = l :: ls) :
    l <+: s := by
  induction s generalizing l ls with
  | nil =>
    simp only [splitPair, List.cons.injEq] at h
    rw [← h.1]
  | cons x s ih =>
    by_cases hx : x ≠ c ∨ s.head? ≠ some d
    · rw [splitPair_cons hx] at h
      rcases hs : splitPair c d s with _ | ⟨k, ks⟩
      · exact absurd hs (splitPair_ne_nil s)
      · rw [hs, consHead, List.cons.injEq] at h
        rw [← h.1, List.cons_prefix_cons]
        exact ⟨rfl, ih hs⟩
    · simp only [not_or, not_not] at hx
      obtain ⟨rfl, hhead⟩ := hx
      obtain ⟨m, rfl⟩ := List.head?_eq_some_iff.1 hhead
      rw [splitPair_cut, List.cons.injEq] at h
      rw [← h.1]
      exact List.nil_prefix

omit [DecidableEq α] in
theorem not_pair_infix_nil : ¬ [c, d] <:+: ([] : List α) := by simp

/-- **No line that is found contains a separator.** -/
theorem not_infix_of_mem_splitPair {s l : List α} (hl : l ∈ splitPair c d s) :
    ¬ [c, d] <:+: l := by
  induction s using splitPair.induct c d generalizing l with
  | case1 =>
    rw [splitPair, List.mem_singleton] at hl
    rw [hl]
    exact not_pair_infix_nil
  | case2 x =>
    rw [splitPair, List.mem_singleton] at hl
    intro h
    have := h.length_le
    simp [hl] at this
  | case3 x y s hxy ih =>
    rw [splitPair, if_pos hxy, List.mem_cons] at hl
    rcases hl with rfl | hl
    · exact not_pair_infix_nil
    · exact ih hl
  | case4 x y s hxy ih =>
    rw [splitPair, if_neg hxy] at hl
    rcases hs : splitPair c d (y :: s) with _ | ⟨k, ks⟩
    · exact absurd hs (splitPair_ne_nil _)
    · rw [hs, consHead, List.mem_cons] at hl
      rcases hl with rfl | hl
      · -- the line goes on: a separator at its head would have been cut
        intro h
        rcases List.infix_cons_iff.1 h with hpre | hin
        · obtain ⟨rfl, hpre'⟩ := List.cons_prefix_cons.1 hpre
          have hk := (hpre'.trans (prefix_of_splitPair hs))
          exact hxy ⟨rfl, (singleton_prefix_cons.1 hk).symm⟩
        · exact ih (hs ▸ List.mem_cons_self) hin
      · exact ih (hs ▸ List.mem_cons_of_mem k hl)

/-! ## The first empty line -/

/-- Nothing is found in a part in which no occurrence starts. -/
theorem strstr_append_skip {a t n : List α}
    (h : ∀ b e, a = b ++ e → e ≠ [] → ¬ n <+: e ++ t) : strstr (a ++ t) n = strstr t n := by
  induction a with
  | nil => rfl
  | cons x a ih =>
    have hx : ¬ n <+: x :: (a ++ t) := h [] (x :: a) rfl (by simp)
    simp only [List.cons_append, strstr, hx, if_false]
    exact ih fun b e hbe he => h (x :: b) e (by simp [hbe]) he

omit [DecidableEq α] in
/-- A separator does not begin inside a line. -/
theorem not_prefix_of_line (hcd : c ≠ d) {l b e t : List α} (hl : ¬ [c, d] <:+: l)
    (hbe : l = b ++ e) (he : e ≠ []) (ht : t.head? = some c) : ¬ [c, d] <+: e ++ t := by
  intro h
  obtain ⟨m, rfl⟩ := List.head?_eq_some_iff.1 ht
  rcases e with _ | ⟨x, _ | ⟨y, e⟩⟩
  · exact he rfl
  · have h₂ := (List.cons_prefix_cons.1 h).2
    exact hcd (singleton_prefix_cons.1 h₂).symm
  · refine hl (hbe ▸ List.IsInfix.trans ?_ (List.suffix_append b _).isInfix)
    have h₂ : [c, d] <+: x :: y :: e := by
      simp only [List.cons_append, List.cons_prefix_cons] at h ⊢
      exact ⟨h.1, h.2.1, List.nil_prefix⟩
    exact h₂.isInfix

/-- **The first empty line** is found after the last of the lines, when all but the first one are
not empty. -/
theorem strstr_emptyLine_cons (hcd : c ≠ d) {l : List α} {ls : List (List α)}
    (hl : ¬ [c, d] <:+: l) (h : ∀ m ∈ ls, m ≠ [] ∧ ¬ [c, d] <:+: m) (rest : List α) :
    strstr ([c, d].intercalate (l :: ls) ++ c :: d :: c :: d :: rest) [c, d, c, d] =
      some (c :: d :: c :: d :: rest) := by
  have hpair {s : List α} (hs : [c, d, c, d] <+: s) : [c, d] <+: s :=
    List.IsPrefix.trans ⟨[c, d], rfl⟩ hs
  induction ls generalizing l with
  | nil =>
    rw [List.intercalate_singleton]
    exact strstr_eq_some ⟨rest, rfl⟩ fun b e hbe he hs =>
      not_prefix_of_line hcd hl hbe he rfl (hpair hs)
  | cons m ls ih =>
    obtain ⟨⟨hmne, hm⟩, hls⟩ := List.forall_mem_cons.1 h
    set tail := [c, d].intercalate (m :: ls) ++ c :: d :: c :: d :: rest with htail
    have hassoc : [c, d].intercalate (l :: m :: ls) ++ c :: d :: c :: d :: rest =
        l ++ ([c, d] ++ tail) := by
      rw [List.intercalate_cons_cons, List.append_assoc, List.append_assoc]
    rw [hassoc, strstr_append_skip, strstr_append_skip, htail, ih hm hls]
    · -- the line `m` does not begin with the separator
      have htail' : ∃ t, tail = m ++ t ∧ t.head? = some c := by
        cases ls with
        | nil => exact ⟨_, by rw [htail, List.intercalate_singleton], rfl⟩
        | cons k ls =>
          exact ⟨_, by rw [htail, List.intercalate_cons_cons, List.append_assoc,
            List.append_assoc], rfl⟩
      obtain ⟨t, ht, hhead⟩ := htail'
      intro b e hbe he hs
      rcases b with _ | ⟨x, _ | ⟨y, b⟩⟩
      · rw [List.nil_append] at hbe
        rw [← hbe, ht] at hs
        have hs' : [c, d] <+: m ++ t := (List.prefix_append_right_inj [c, d]).1 hs
        exact not_prefix_of_line (b := []) hcd hm rfl hmne hhead hs'
      · simp only [List.cons_append, List.nil_append, List.cons.injEq] at hbe
        rw [← hbe.2] at hs
        exact hcd (List.cons_prefix_cons.1 hs).1
      · simp only [List.cons_append, List.cons.injEq, List.nil_eq, List.append_eq_nil_iff] at hbe
        exact he hbe.2.2.2
    · intro b e hbe he hs
      exact not_prefix_of_line hcd hl hbe he rfl (hpair hs)

/-- After lines that are all not empty it is found after the last of them. -/
theorem strstr_emptyLine (hcd : c ≠ d) {ls : List (List α)} (hls : ls ≠ [])
    (h : ∀ l ∈ ls, l ≠ [] ∧ ¬ [c, d] <:+: l) (rest : List α) :
    strstr ([c, d].intercalate ls ++ c :: d :: c :: d :: rest) [c, d, c, d] =
      some (c :: d :: c :: d :: rest) := by
  obtain ⟨l, ls, rfl⟩ := List.exists_cons_of_ne_nil hls
  obtain ⟨⟨-, hl⟩, hrest⟩ := List.forall_mem_cons.1 h
  exact strstr_emptyLine_cons hcd hl hrest rest

/-- An empty line after a text that neither holds one nor ends with a separator is found after
the text. -/
theorem strstr_emptyLine_self (hcd : c ≠ d) {l : List α} (hl : ¬ [c, d, c, d] <:+: l)
    (hend : ¬ [c, d] <:+ l) :
    strstr (l ++ [c, d, c, d]) [c, d, c, d] = some [c, d, c, d] := by
  refine strstr_eq_some (List.prefix_refl _) fun b e hbe he hn => ?_
  rcases e with _ | ⟨x, _ | ⟨y, _ | ⟨z, _ | ⟨w, e⟩⟩⟩⟩
  · exact he rfl
  · simp only [List.cons_append, List.nil_append, List.cons_prefix_cons] at hn
    exact hcd hn.2.1.symm
  · simp only [List.cons_append, List.nil_append, List.cons_prefix_cons] at hn
    exact hend ⟨b, by rw [hbe, ← hn.1, ← hn.2.1]⟩
  · simp only [List.cons_append, List.nil_append, List.cons_prefix_cons] at hn
    exact hcd hn.2.2.2.1.symm
  · simp only [List.cons_append, List.cons_prefix_cons] at hn
    obtain ⟨rfl, rfl, rfl, rfl, -⟩ := hn
    exact hl ⟨b, e, by rw [hbe]; simp⟩

end Unalix.CString
