import Unalix.CleanUrl.Clean

/-!
# Decoding a redirection target

`rfc3986_unquote_safe` is meant to decode the triples `%XY` that stand for a letter, a digit or one
of `URI_SAFE_SYMBOLS` (`unquoteSafe`). Its test looks at the percent sign and not at the decoded
byte, and the percent sign is one of the symbols, so whatever follows it is decoded. The two agree
exactly on the texts all of whose triples are safe (`unquotesSafely_iff`).
-/

namespace Unalix

open CString Ascii

/-! ## Safe triples -/

/-- The value of a hexadecimal digit of either case. -/
def hexValue (c : UInt8) : ℕ :=
  if isdigit c then c.toNat - 48 else if 97 ≤ c then c.toNat - 87 else c.toNat - 55

/-- The byte that a triple stands for. -/
def tripleByte (x y : UInt8) : UInt8 := (16 * hexValue x + hexValue y).toUInt8

/-- An ASCII letter or digit, or one of `URI_SAFE_SYMBOLS`. -/
def IsSafe (c : UInt8) : Prop := isalnum c = true ∨ c ∈ uriSafeSymbols

instance (c : UInt8) : Decidable (IsSafe c) := by
  unfold IsSafe
  infer_instance

/-- The two characters after a percent sign stand for a safe byte. -/
def SafeTriple (x y : UInt8) : Prop :=
  isxdigit x = true ∧ isxdigit y = true ∧ IsSafe (tripleByte x y)

instance (x y : UInt8) : Decidable (SafeTriple x y) := by
  unfold SafeTriple
  infer_instance

/-- The text with its safe triples decoded, from left to right. -/
def unquoteSafe : Bytes → Bytes
  | ch :: x :: y :: src =>
    if ch = percent ∧ SafeTriple x y then tripleByte x y :: unquoteSafe src
    else ch :: unquoteSafe (x :: y :: src)
  | src => src

/-- The number of triples that are decoded. -/
def safeTriples : Bytes → ℕ
  | ch :: x :: y :: src =>
    if ch = percent ∧ SafeTriple x y then safeTriples src + 1 else safeTriples (x :: y :: src)
  | _ => 0

example : unquoteSafe (str "%41%2f%00%zz%4") = str "A/%00%zz%4" := by decide

/-- Only safe triples are decoded, so that nothing but printable characters is new, and the text
gets shorter by two bytes for each of them. -/
structure UnquotesSafely (src : Bytes) : Prop where
  decoded : rfc3986UnquoteSafe src = unquoteSafe src
  printable : ∀ c ∈ rfc3986UnquoteSafe src, c ∉ src → 33 ≤ c ∧ c ≤ 126
  strlen : (cString (rfc3986UnquoteSafe src)).length + 2 * safeTriples src = src.length

/-- Every percent sign with two bytes after it begins a safe triple. -/
def AllTriplesSafe (src : Bytes) : Prop :=
  ∀ a x y b, src = a ++ percent :: x :: y :: b → SafeTriple x y

/-! ## Hexadecimal digits -/

theorem hexValue_lt {c : UInt8} (hc : isxdigit c = true) : hexValue c < 16 :=
  forall_byte (p := fun c => isxdigit c = true → hexValue c < 16) (by decide +kernel) c hc

theorem fromHex_eq {c : UInt8} (hc : isxdigit c = true) : fromHex c = (hexValue c).toUInt8 :=
  forall_byte (p := fun c => isxdigit c = true → fromHex c = (hexValue c).toUInt8)
    (by decide +kernel) c hc

theorem fromHex_lt (c : UInt8) : (fromHex c).toNat < 16 :=
  forall_byte (p := fun c => (fromHex c).toNat < 16) (by decide +kernel) c

/-- The shift and the disjunction put the two digits side by side. -/
theorem shift_or_eq : ∀ m : ℕ, m < 16 → ∀ n : ℕ, n < 16 →
    m.toUInt8 <<< 4 ||| n.toUInt8 = (16 * m + n).toUInt8 := by decide +kernel

/-- On hexadecimal digits the code writes the byte of the triple. -/
theorem fromHex_triple {x y : UInt8} (hx : isxdigit x = true) (hy : isxdigit y = true) :
    fromHex x <<< 4 ||| fromHex y = tripleByte x y := by
  rw [fromHex_eq hx, fromHex_eq hy, tripleByte]
  exact shift_or_eq _ (hexValue_lt hx) _ (hexValue_lt hy)

/-- Only `%25` is decoded to a percent sign. -/
theorem safeTriple_of_eq_percent {x y : UInt8} (h : fromHex x <<< 4 ||| fromHex y = percent) :
    SafeTriple x y := by
  have hdigits : ∀ m : ℕ, m < 16 → ∀ n : ℕ, n < 16 →
      m.toUInt8 <<< 4 ||| n.toUInt8 = percent → m = 2 ∧ n = 5 := by decide +kernel
  have hm : fromHex x = (fromHex x).toNat.toUInt8 := by simp
  have hn : fromHex y = (fromHex y).toNat.toUInt8 := by simp
  rw [hm, hn] at h
  obtain ⟨hx, hy⟩ := hdigits _ (fromHex_lt x) _ (fromHex_lt y) h
  have hx' : x = 50 :=
    forall_byte (p := fun c => (fromHex c).toNat = 2 → c = 50) (by decide +kernel) x hx
  have hy' : y = 53 :=
    forall_byte (p := fun c => (fromHex c).toNat = 5 → c = 53) (by decide +kernel) y hy
  rw [hx', hy']
  decide

theorem isxdigit_ne_percent {c : UInt8} (hc : isxdigit c = true) : c ≠ percent := by
  rintro rfl
  exact absurd hc (by decide)

theorem IsSafe.printable {c : UInt8} (h : IsSafe c) : 33 ≤ c ∧ c ≤ 126 :=
  forall_byte (p := fun c => IsSafe c → 33 ≤ c ∧ c ≤ 126) (by decide +kernel) c h

/-! ## What the code decodes -/

/-- The test of the code is about the percent sign, and always true. -/
theorem rfc3986UnquoteSafe_percent (x y : UInt8) (src : Bytes) :
    rfc3986UnquoteSafe (percent :: x :: y :: src) =
      (fromHex x <<< 4 ||| fromHex y) :: rfc3986UnquoteSafe src := by
  have htest : (isalnum percent || decide (percent ∈ uriSafeSymbols)) = true := by decide
  rw [rfc3986UnquoteSafe, if_pos rfl, if_pos htest]

theorem rfc3986UnquoteSafe_cons {ch : UInt8} (h : ch ≠ percent) (src : Bytes) :
    rfc3986UnquoteSafe (ch :: src) = ch :: rfc3986UnquoteSafe src := by
  rcases src with _ | ⟨x, _ | ⟨y, src⟩⟩
  · rfl
  · rfl
  · rw [rfc3986UnquoteSafe, if_neg h]

/-- Decoding takes two bytes for each triple. -/
theorem length_unquoteSafe (src : Bytes) :
    (unquoteSafe src).length + 2 * safeTriples src = src.length := by
  fun_induction unquoteSafe src with
  | case1 ch x y src h ih =>
    rw [safeTriples, if_pos h]
    simp only [List.length_cons] at ih ⊢
    omega
  | case2 ch x y src h ih =>
    rw [safeTriples, if_neg h]
    simp only [List.length_cons] at ih ⊢
    omega
  | case3 src h =>
    rcases src with _ | ⟨ch, _ | ⟨x, _ | ⟨y, src⟩⟩⟩
    · rfl
    · rfl
    · rfl
    · exact absurd rfl (h ch x y src)

/-- What is new in the decoded text is safe. -/
theorem mem_unquoteSafe {src : Bytes} {c : UInt8} (h : c ∈ unquoteSafe src) :
    c ∈ src ∨ IsSafe c := by
  fun_induction unquoteSafe src with
  | case1 ch x y src hsafe ih =>
    rcases List.mem_cons.1 h with rfl | h
    · exact .inr hsafe.2.2.2
    · exact (ih h).imp_left fun hmem => by simp [hmem]
  | case2 ch x y src hsafe ih =>
    rcases List.mem_cons.1 h with rfl | h
    · simp
    · exact (ih h).imp_left (List.mem_cons_of_mem ch)
  | case3 src hshort => exact .inl h

/-! ## Texts whose triples are all safe -/

theorem AllTriplesSafe.tail {ch : UInt8} {src : Bytes} (h : AllTriplesSafe (ch :: src)) :
    AllTriplesSafe src := fun a x y b heq => h (ch :: a) x y b (by rw [heq, List.cons_append])

theorem AllTriplesSafe.cons {ch : UInt8} {src : Bytes} (hch : ch ≠ percent)
    (h : AllTriplesSafe src) : AllTriplesSafe (ch :: src) := by
  intro a x y b heq
  cases a with
  | nil => exact absurd (List.cons.inj heq).1 hch
  | cons z a => exact h a x y b (List.cons.inj heq).2

/-- The digits of a safe triple are no percent signs. -/
theorem AllTriplesSafe.triple {x y : UInt8} {src : Bytes} (hxy : SafeTriple x y)
    (h : AllTriplesSafe src) : AllTriplesSafe (percent :: x :: y :: src) := by
  have hrest := (h.cons (isxdigit_ne_percent hxy.2.1)).cons (isxdigit_ne_percent hxy.1)
  intro a x' y' b heq
  cases a with
  | nil =>
    simp only [List.nil_append, List.cons.injEq, true_and] at heq
    obtain ⟨rfl, rfl, -⟩ := heq
    exact hxy
  | cons z a => exact hrest a x' y' b (List.cons.inj heq).2

/-- On such texts the code decodes what is safe. -/
theorem AllTriplesSafe.decoded {src : Bytes} (h : AllTriplesSafe src) :
    rfc3986UnquoteSafe src = unquoteSafe src := by
  fun_induction unquoteSafe src with
  | case1 ch x y src hsafe ih =>
    obtain ⟨rfl, hxy⟩ := hsafe
    rw [rfc3986UnquoteSafe_percent, fromHex_triple hxy.1 hxy.2.1, ih h.tail.tail.tail]
  | case2 ch x y src hsafe ih =>
    have hch : ch ≠ percent := by
      rintro rfl
      exact hsafe ⟨rfl, h [] x y src rfl⟩
    rw [rfc3986UnquoteSafe_cons hch, ih h.tail]
  | case3 src hshort =>
    rcases src with _ | ⟨ch, _ | ⟨x, _ | ⟨y, src⟩⟩⟩
    · rfl
    · rfl
    · rfl
    · exact absurd rfl (hshort ch x y src)

/-- The first triple that is not safe makes a difference. -/
theorem allTriplesSafe_of_decoded {src : Bytes} (h : rfc3986UnquoteSafe src = unquoteSafe src) :
    AllTriplesSafe src := by
  fun_induction unquoteSafe src with
  | case1 ch x y src hsafe ih =>
    obtain ⟨rfl, hxy⟩ := hsafe
    rw [rfc3986UnquoteSafe_percent] at h
    exact (ih (List.cons.inj h).2).triple hxy
  | case2 ch x y src hsafe ih =>
    by_cases hch : ch = percent
    · subst hch
      rw [rfc3986UnquoteSafe_percent] at h
      exact absurd ⟨rfl, safeTriple_of_eq_percent (List.cons.inj h).1⟩ hsafe
    · rw [rfc3986UnquoteSafe_cons hch] at h
      exact (ih (List.cons.inj h).2).cons hch
  | case3 src hshort =>
    rintro a x y b rfl
    rcases a with _ | ⟨c₁, _ | ⟨c₂, a⟩⟩
    · exact absurd rfl (hshort _ _ _ _)
    · exact absurd rfl (hshort _ _ _ _)
    · rcases a with _ | ⟨c₃, a⟩ <;> exact absurd rfl (hshort _ _ _ _)

/-- **Only safe triples are decoded** if and only if there are no others. -/
theorem unquotesSafely_iff {src : Bytes} (hsrc : 0 ∉ src) :
    UnquotesSafely src ↔ AllTriplesSafe src := by
  refine ⟨fun h => allTriplesSafe_of_decoded h.decoded, fun h => ?_⟩
  have hdecoded := h.decoded
  have hprintable : ∀ c ∈ rfc3986UnquoteSafe src, c ∉ src → 33 ≤ c ∧ c ≤ 126 := by
    intro c hc hnew
    rw [hdecoded] at hc
    exact ((mem_unquoteSafe hc).resolve_left hnew).printable
  refine ⟨hdecoded, hprintable, ?_⟩
  have hzero : 0 ∉ rfc3986UnquoteSafe src := by
    intro hmem
    exact absurd (hprintable 0 hmem hsrc).1 (by decide)
  have hstring : cString (rfc3986UnquoteSafe src) = rfc3986UnquoteSafe src := before_of_not_mem hzero
  rw [hstring, hdecoded]
  exact length_unquoteSafe src

/-- A target whose scheme and slashes are quoted. -/
theorem unquotesSafely_example : UnquotesSafely (str "https%3A%2F%2Fexample.org%2F") ↔
    AllTriplesSafe (str "https%3A%2F%2Fexample.org%2F") :=
  unquotesSafely_iff (by decide)

/-- A quoted line break is decoded, and so is what is no triple at all. -/
theorem not_unquotesSafely_lineBreak :
    rfc3986UnquoteSafe (str "a%0D%0Ab") = str "a\x0d\nb" ∧
      rfc3986UnquoteSafe (str "%zz") = [0] ∧
      ¬ UnquotesSafely (str "a%0D%0Ab") ∧ ¬ UnquotesSafely (str "%zz") := by
  have hbreak : rfc3986UnquoteSafe (str "a%0D%0Ab") = str "a\x0d\nb" := by decide
  have hnull : rfc3986UnquoteSafe (str "%zz") = [0] := by decide
  refine ⟨hbreak, hnull, fun h => ?_, fun h => ?_⟩
  · exact absurd h.decoded (by decide)
  · exact absurd h.decoded (by decide)

end Unalix
