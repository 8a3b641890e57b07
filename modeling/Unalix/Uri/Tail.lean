import Unalix.Uri.Grammar

/-!
# The tail of a URI: path, query and fragment

The authority of a URI ends at the first `/`, `?` or `#`, and the rest is its tail.
`parseComponents` reads the tail through three independent searches. It succeeds when the
delimiters it finds are in order (`TailOk`), and then each component is the text between a
delimiter and the next one searched for (`readPath`, `readQuery`, `readFragment`): the path ends
at the query only, not at the fragment.
-/

namespace Unalix

open CString Ascii Outcome

/-! ## Delimiters -/

/-- The characters that end an authority. -/
def IsDelim (c : UInt8) : Prop := c = slash ∨ c = questionMark ∨ c = hashtag

instance (c : UInt8) : Decidable (IsDelim c) := by
  unfold IsDelim
  infer_instance

/-- A text without delimiters. -/
def NoDelim (a : Bytes) : Prop := ∀ c ∈ a, ¬ IsDelim c

instance (a : Bytes) : Decidable (NoDelim a) := by
  unfold NoDelim
  infer_instance

/-- A tail is empty or begins with a delimiter. -/
def IsTail (t : Bytes) : Prop := t = [] ∨ ∃ c x, t = c :: x ∧ IsDelim c

theorem NoDelim.not_mem {a : Bytes} (h : NoDelim a) {c : UInt8} (hc : IsDelim c) : c ∉ a :=
  fun hm => h c hm hc

theorem isDelim_slash : IsDelim slash := .inl rfl

theorem isDelim_questionMark : IsDelim questionMark := .inr (.inl rfl)

theorem isDelim_hashtag : IsDelim hashtag := .inr (.inr rfl)

/-- Before the tail nothing is found. -/
theorem NoDelim.strstr_append {a : Bytes} (h : NoDelim a) {c : UInt8} (hc : IsDelim c)
    (t : Bytes) : strstr (a ++ t) [c] = strstr t [c] :=
  strstr_singleton_append (h.not_mem hc) t

/-- When both occur, `c` occurs before `d`. -/
def Precedes (c d : UInt8) (s : Bytes) : Prop := d ∈ s → c ∈ s → c ∈ before d s

/-- The tails that `parseComponents` accepts. -/
inductive TailOk : Bytes → Prop
  | nil : TailOk []
  | path {x : Bytes} (h : Precedes questionMark hashtag x) : TailOk (slash :: x)
  | query {x : Bytes} (h : slash ∉ x) : TailOk (questionMark :: x)
  | fragment {x : Bytes} (h : questionMark ∉ x) : TailOk (hashtag :: x)

theorem TailOk.isTail {t : Bytes} (h : TailOk t) : IsTail t := by
  cases h with
  | nil => exact .inl rfl
  | path _ => exact .inr ⟨_, _, rfl, isDelim_slash⟩
  | query _ => exact .inr ⟨_, _, rfl, isDelim_questionMark⟩
  | fragment _ => exact .inr ⟨_, _, rfl, isDelim_hashtag⟩

/-- An accepted tail is one whose delimiters are found in order. -/
theorem tailOk_iff {t : Bytes} (ht : IsTail t) :
    TailOk t ↔ Precedes questionMark hashtag t ∧ Precedes slash questionMark t := by
  have hsq : slash ≠ questionMark := by decide
  have hsh : slash ≠ hashtag := by decide
  have hqh : questionMark ≠ hashtag := by decide
  rcases ht with rfl | ⟨c, x, rfl, rfl | rfl | rfl⟩
  · exact iff_of_true .nil ⟨by simp [Precedes], by simp [Precedes]⟩
  · constructor
    · rintro (_ | h)
      refine ⟨?_, ?_⟩
      · simpa [Precedes, before, hsh, hsq.symm, hsh.symm] using h
      · simp [Precedes, before, hsq]
    · rintro ⟨h, -⟩
      exact .path (by simpa [Precedes, before, hsh, hsq.symm, hsh.symm] using h)
  · constructor
    · rintro (_ | _ | h)
      refine ⟨?_, ?_⟩
      · simp [Precedes, before, hqh]
      · intro _ hs
        exact absurd hs (by simp [hsq, h])
    · rintro ⟨-, h⟩
      refine .query fun hs => ?_
      simpa [before] using h (by simp) (by simp [hs])
  · constructor
    · rintro (_ | _ | _ | h)
      refine ⟨?_, ?_⟩
      · intro _ hq
        exact absurd hq (by simp [hqh, h])
      · intro hq
        exact absurd hq (by simp [hqh, h])
    · rintro ⟨h, -⟩
      refine .fragment fun hq => ?_
      simpa [before] using h (by simp) (by simp [hq])

/-! ## Copies -/

/-- A field for a text that may be empty. -/
def nonempty (s : Bytes) : Option Bytes := if s = [] then none else some s

@[simp] theorem nonempty_nil : nonempty [] = none := rfl

@[simp] theorem nonempty_eq_none_iff {s : Bytes} : nonempty s = none ↔ s = [] := by
  simp [nonempty]

theorem nonempty_of_ne_nil {s : Bytes} (h : s ≠ []) : nonempty s = some s := if_neg h

theorem mem_nonempty_iff {s t : Bytes} : t ∈ nonempty s ↔ t ≠ [] ∧ s = t := by
  unfold nonempty
  split
  · rename_i h
    simp [h, eq_comm]
  · rename_i h
    simp only [Option.mem_some_iff]
    exact ⟨fun hst => ⟨hst ▸ h, hst⟩, And.right⟩

theorem ne_nil_of_mem_nonempty {s t : Bytes} (h : t ∈ nonempty s) : t ≠ [] :=
  (mem_nonempty_iff.1 h).1

@[simp] theorem text_nonempty (s : Bytes) : text (nonempty s) = s := by
  unfold nonempty
  split
  · rename_i h
    rw [h]
    rfl
  · rfl

/-- A field that is never empty is the text it points to. -/
theorem nonempty_text {field : Option Bytes} (h : ∀ s ∈ field, s ≠ []) :
    nonempty (text field) = field := by
  cases field with
  | none => rfl
  | some s => exact nonempty_of_ne_nil (h s rfl)

theorem copyRange_append (x stop : Bytes) : copyRange (x ++ stop) stop = .ok (nonempty x) := by
  have hsize : sizeBetween (x ++ stop) stop = x.length := by
    simp [sizeBetween]
  cases x with
  | nil =>
    rw [copyRange, hsize]
    rfl
  | cons c x =>
    simp only [copyRange, hsize, List.length_cons]
    rw [if_neg (by omega), if_pos (by omega)]
    simp [nonempty]

/-- A negative size is never copied. -/
theorem copyRange_ne_ok {start stop : Bytes} (h : start.length < stop.length)
    (v : Option Bytes) : copyRange start stop ≠ .ok v := by
  have hsize : sizeBetween start stop < 0 := by
    unfold sizeBetween
    omega
  unfold copyRange
  simp only [if_neg (show ¬ sizeBetween start stop = 0 by omega),
    if_neg (show ¬ 0 < sizeBetween start stop by omega)]
  split <;> simp

/-! ## Components -/

/-- The component that begins after the first `c` and ends at the first `d` of the whole text. -/
theorem copyComponent_eq_ok_iff {c d : UInt8} (hcd : c ≠ d) {t : Bytes} {v : Option Bytes} :
    copyComponent (strstr t [c]) (text (strstr t [d])) = .ok v ↔
      Precedes c d t ∧ v = nonempty (before d (after c t)) := by
  by_cases hc : c ∈ t
  · by_cases hd : d ∈ t
    · rcases cut_cut hcd hc hd with ⟨x, y, z, rfl, hcx, hdx, hdy⟩ | ⟨x, y, z, rfl, hcx, hdx, hcy⟩
      · have hd' : d ∉ x ++ c :: y := by simp [hdx, hdy, hcd.symm]
        have hc' : x ++ c :: y ++ d :: z = x ++ c :: (y ++ d :: z) := by simp
        have hprec : Precedes c d (x ++ c :: y ++ d :: z) := fun _ _ => by
          rw [before_cut hd']
          simp
        rw [and_iff_right hprec, strstr_singleton_cut hd', hc', strstr_singleton_cut hcx,
          after_cut hcx, before_cut hdy]
        simp only [copyComponent, text, Option.getD_some, List.drop_one, List.tail_cons, copyRange_append,
          Except.ok.injEq, eq_comm]
      · have hc' : c ∉ x ++ d :: y := by simp [hcx, hcy, hcd]
        have hd' : x ++ d :: y ++ c :: z = x ++ d :: (y ++ c :: z) := by simp
        have hprec : ¬ Precedes c d (x ++ d :: y ++ c :: z) := fun h => by
          have := h hd hc
          rw [hd', before_cut hdx] at this
          exact hcx this
        rw [strstr_singleton_cut hc', hd', strstr_singleton_cut hdx]
        refine iff_of_false (copyRange_ne_ok ?_ v) fun h => hprec (hd' ▸ h.1)
        simp [text]
        omega
    · have hprec : Precedes c d t := fun h => absurd h hd
      rw [and_iff_right hprec, strstr_singleton_eq_none_iff.2 hd, strstr_singleton_eq, if_pos hc,
        before_of_not_mem fun h => hd (mem_of_mem_after h)]
      simp only [copyComponent, text, Option.getD_none, List.drop_one, List.tail_cons]
      rw [← List.append_nil (after c t), copyRange_append, List.append_nil, Except.ok.injEq,
        eq_comm]
  · have hprec : Precedes c d t := fun _ h => absurd h hc
    rw [and_iff_right hprec, strstr_singleton_eq_none_iff.2 hc, after_of_not_mem hc]
    simp only [copyComponent, before, List.takeWhile_nil, nonempty_nil, Except.ok.injEq, eq_comm]

/-- The path read from a tail. -/
def readPath (t : Bytes) : Option Bytes := nonempty (before questionMark (after slash t))

/-- The query read from a tail. -/
def readQuery (t : Bytes) : Option Bytes := nonempty (before hashtag (after questionMark t))

/-- The fragment read from a tail. -/
def readFragment (t : Bytes) : Option Bytes := nonempty (after hashtag t)

theorem copyComponent_hashtag (t : Bytes) :
    copyComponent (strstr t [hashtag]) [] = .ok (readFragment t) := by
  unfold readFragment
  rw [strstr_singleton_eq]
  split_ifs with h
  · have := copyRange_append (after hashtag t) []
    rw [List.append_nil] at this
    exact this
  · rw [after_of_not_mem h]
    rfl

/-- **The components of a tail**: an accepted tail is read by `readPath`, `readQuery` and
`readFragment`. -/
theorem parseComponents_eq_ok_iff {obj u : URI} {t : Bytes} (ht : IsTail t) :
    parseComponents obj (strstr t [slash]) (strstr t [questionMark]) (strstr t [hashtag]) =
        .ok u ↔
      TailOk t ∧ u = { obj with
        fragment := readFragment t <|> obj.fragment
        query := readQuery t <|> obj.query
        path := readPath t <|> obj.path } := by
  rw [tailOk_iff ht]
  simp only [parseComponents, copyComponent_hashtag, ok_bind, bind_eq_ok,
    copyComponent_eq_ok_iff (show questionMark ≠ hashtag by decide),
    copyComponent_eq_ok_iff (show slash ≠ questionMark by decide), pure_eq, Except.ok.injEq]
  constructor
  · rintro ⟨_, ⟨hq, rfl⟩, _, ⟨hp, rfl⟩, rfl⟩
    exact ⟨⟨hq, hp⟩, rfl⟩
  · rintro ⟨⟨hq, hp⟩, rfl⟩
    exact ⟨_, ⟨hq, rfl⟩, _, ⟨hp, rfl⟩, rfl⟩

end Unalix
