import Unalix.CleanUrl.Regex
import Unalix.Query

/-!
# The pattern of a rule that is a key (`ruleset.c`, `regex.c`)

The loader extends a rule to `(?:^|&|\?)…(?:=[^&]*)?`. When the rule is a text of letters and
digits, a match of the pattern takes the `&` or the question mark in front of the key, the key, and
a value up to the next `&`. It does not look for the end of the key.

So no match goes beyond the end of a piece of the query, that is what stands between two `&`, and
what is left of the query is what is left of each piece, with the `&` in front of it unless the
piece begins with the key (`IsKey.deleteAll_pieces`). A piece in which the pattern finds nothing
is kept, and of the others at least the key is lost (`IsKey.countP_leftOf_lt`).
-/

namespace Unalix

open Ascii CString Deletion

/-! ## The pattern -/

/-- The length of what `(?:=[^&]*)?` takes. -/
def valueMatch : Bytes → ℕ
  | [] => 0
  | c :: s => if c = equalSign then (before andSign s).length + 1 else 0

/-- The length of what a key and `(?:=[^&]*)?` take. -/
def keyMatch (key s : Bytes) : ℕ :=
  if key <+: s then key.length + valueMatch (s.drop key.length) else 0

/-- The length of what `(?:^|&|\?)`, a key and `(?:=[^&]*)?` take. -/
def parameterMatch (key : Bytes) (first : Bool) (s : Bytes) : ℕ :=
  if first = true ∧ key <+: s then keyMatch key s
  else match s with
    | [] => 0
    | c :: s => if (c = andSign ∨ c = questionMark) ∧ key <+: s then keyMatch key s + 1 else 0

/-- A rule that is a key: a text of letters and digits. -/
structure IsKey (key : Bytes) : Prop where
  ne_nil : key ≠ []
  all_isalnum : ∀ c ∈ key, isalnum c = true

variable {key : Bytes}

theorem IsKey.not_mem (h : IsKey key) {c : UInt8} (hc : isalnum c = false) : c ∉ key := by
  intro hmem
  rw [h.all_isalnum c hmem] at hc
  cases hc

theorem IsKey.andSign_not_mem (h : IsKey key) : andSign ∉ key := h.not_mem (by decide)

theorem IsKey.equalSign_not_mem (h : IsKey key) : equalSign ∉ key := h.not_mem (by decide)

theorem keyMatch_of_begins {s : Bytes} (h : key <+: s) :
    keyMatch key s = key.length + valueMatch (s.drop key.length) := if_pos h

theorem keyMatch_of_not_begins {s : Bytes} (h : ¬ key <+: s) : keyMatch key s = 0 := if_neg h

theorem IsKey.length_pos (h : IsKey key) : 0 < key.length := List.length_pos_iff.2 h.ne_nil

/-! ## Matches in a piece -/

/-- The end of the query, or the `&` behind a piece. -/
def AtEnd (s : Bytes) : Prop := s = [] ∨ ∃ t, s = andSign :: t

theorem AtEnd.before_eq {s : Bytes} (h : AtEnd s) : before andSign s = [] := by
  rcases h with rfl | ⟨t, rfl⟩
  · rfl
  · simp [before]

/-- The key of a rule does not go beyond a piece. -/
theorem IsKey.prefix_append_iff (h : IsKey key) {a s : Bytes} (hs : AtEnd s) :
    key <+: a ++ s ↔ key <+: a := by
  refine ⟨fun hkey => ?_, fun hkey => hkey.trans (List.prefix_append a s)⟩
  rcases List.prefix_or_prefix_of_prefix hkey (List.prefix_append a s) with hle | ⟨k, rfl⟩
  · exact hle
  · rw [List.prefix_append_right_inj] at hkey
    rcases hs with rfl | ⟨t, rfl⟩
    · rw [List.prefix_nil.1 hkey, List.append_nil]
    · cases k with
      | nil => rw [List.append_nil]
      | cons c k =>
        obtain ⟨rfl, -⟩ := List.cons_prefix_cons.1 hkey
        exact absurd (List.mem_append_right a List.mem_cons_self) h.andSign_not_mem

theorem valueMatch_append {a s : Bytes} (ha : andSign ∉ a) (hs : AtEnd s) :
    valueMatch (a ++ s) = valueMatch a ∧ valueMatch a ≤ a.length := by
  cases a with
  | nil =>
    refine ⟨?_, Nat.le_refl 0⟩
    rcases hs with rfl | ⟨t, rfl⟩
    · rfl
    · change (if andSign = equalSign then (before andSign t).length + 1 else 0) = 0
      exact if_neg (by decide)
  | cons c a =>
    have hrest : andSign ∉ a := fun h => ha (List.mem_cons_of_mem c h)
    rw [List.cons_append, valueMatch, valueMatch, before_append_of_not_mem hrest, hs.before_eq,
      before_of_not_mem hrest, List.append_nil]
    refine ⟨rfl, ?_⟩
    split <;> simp

/-- The key with its value does not go beyond a piece either. -/
theorem IsKey.keyMatch_append (h : IsKey key) {a s : Bytes} (ha : andSign ∉ a) (hs : AtEnd s) :
    keyMatch key (a ++ s) = keyMatch key a ∧ keyMatch key a ≤ a.length := by
  by_cases hkey : key <+: a
  · have hle := hkey.length_le
    have hrest : andSign ∉ a.drop key.length := fun hmem => ha (List.mem_of_mem_drop hmem)
    obtain ⟨heq, hvalue⟩ := valueMatch_append hrest hs
    rw [keyMatch_of_begins hkey, keyMatch_of_begins ((h.prefix_append_iff hs).2 hkey),
      List.drop_append_of_le_length hle, heq]
    rw [List.length_drop] at hvalue
    exact ⟨rfl, by omega⟩
  · rw [keyMatch_of_not_begins hkey, keyMatch_of_not_begins (mt (h.prefix_append_iff hs).1 hkey)]
    exact ⟨rfl, Nat.zero_le _⟩

theorem parameterMatch_first {first : Bool} {s : Bytes} (h : first = true ∧ key <+: s) :
    parameterMatch key first s = keyMatch key s := if_pos h

theorem parameterMatch_cons {first : Bool} {c : UInt8} {s : Bytes}
    (h : ¬ (first = true ∧ key <+: c :: s)) : parameterMatch key first (c :: s) =
      if (c = andSign ∨ c = questionMark) ∧ key <+: s then keyMatch key s + 1 else 0 := if_neg h

theorem IsKey.parameterMatch_append (h : IsKey key) {a s : Bytes} (ha : andSign ∉ a)
    (hne : a ≠ []) (hs : AtEnd s) (first : Bool) :
    parameterMatch key first (a ++ s) = parameterMatch key first a ∧
      parameterMatch key first a ≤ a.length := by
  by_cases hfirst : first = true ∧ key <+: a
  · have hfirst' : first = true ∧ key <+: a ++ s :=
      ⟨hfirst.1, (h.prefix_append_iff hs).2 hfirst.2⟩
    rw [parameterMatch_first hfirst, parameterMatch_first hfirst']
    exact h.keyMatch_append ha hs
  · have hfirst' : ¬ (first = true ∧ key <+: a ++ s) := by
      rwa [h.prefix_append_iff hs]
    obtain ⟨c, a, rfl⟩ := List.exists_cons_of_ne_nil hne
    have hrest : andSign ∉ a := fun hmem => ha (List.mem_cons_of_mem c hmem)
    obtain ⟨heq, hle⟩ := h.keyMatch_append hrest hs
    rw [List.cons_append] at hfirst' ⊢
    rw [parameterMatch_cons hfirst, parameterMatch_cons hfirst', List.length_cons]
    simp only [h.prefix_append_iff hs, heq, true_and]
    split <;> omega

/-! ## What is left of the pieces -/

/-- What is left of a piece, when its beginning follows an `&` or is the beginning of the query. -/
def leftOf (key piece : Bytes) : Bytes :=
  deleteAll (parameterMatch key) (keyMatch key piece) false piece

/-- What is left of a piece and of the `&` in front of it. -/
def leftBehind (key piece : Bytes) : Bytes :=
  if key <+: piece then leftOf key piece else andSign :: leftOf key piece

theorem leftOf_of_not_begins {piece : Bytes} (h : ¬ key <+: piece) :
    leftOf key piece = deleteAll (parameterMatch key) 0 false piece := by
  rw [leftOf, keyMatch_of_not_begins h]

theorem IsKey.leftOf_of_begins (h : IsKey key) {piece : Bytes} (hkey : key <+: piece) :
    leftOf key piece =
      deleteAll (parameterMatch key) 0 false (piece.drop (keyMatch key piece)) := by
  have hpos := h.length_pos
  rw [leftOf, deleteAll_skip]
  rw [keyMatch_of_begins hkey]
  omega

/-- The beginning of the query makes no difference unless the key is there. -/
theorem deleteAll_of_not_begins {s : Bytes} (h : ¬ key <+: s) (first : Bool) :
    deleteAll (parameterMatch key) 0 first s = deleteAll (parameterMatch key) 0 false s := by
  cases s with
  | nil => simp
  | cons c s =>
    rw [deleteAll, deleteAll, parameterMatch_cons fun hfirst => h hfirst.2,
      parameterMatch_cons fun hfirst => h hfirst.2]

/-- The first piece. -/
theorem IsKey.deleteAll_first (h : IsKey key) (piece : Bytes) :
    deleteAll (parameterMatch key) 0 true piece = leftOf key piece := by
  by_cases hkey : key <+: piece
  · have hpos := h.length_pos
    have hne : piece ≠ [] := by
      rintro rfl
      exact h.ne_nil (List.prefix_nil.1 hkey)
    have hmatch := parameterMatch_first ⟨rfl, hkey⟩
    rw [deleteAll_of_match _ hne, hmatch, h.leftOf_of_begins hkey]
    rw [hmatch, keyMatch_of_begins hkey]
    omega
  · rw [deleteAll_of_not_begins hkey, leftOf_of_not_begins hkey]

/-- A piece, and what comes behind it. -/
theorem IsKey.deleteAll_piece (h : IsKey key) {piece s : Bytes} (hpiece : andSign ∉ piece)
    (hs : AtEnd s) {skip : ℕ} (hskip : skip ≤ piece.length) (first : Bool) :
    deleteAll (parameterMatch key) skip first (piece ++ s) =
      deleteAll (parameterMatch key) skip first piece ++
        deleteAll (parameterMatch key) 0 false s := by
  have hnot : ¬ key <+: s := by
    have hiff := @IsKey.prefix_append_iff key h [] s hs
    rw [List.nil_append, List.prefix_nil] at hiff
    exact mt hiff.1 h.ne_nil
  rw [deleteAll_append _ hskip, deleteAll_of_not_begins hnot]
  intro first c hc hne
  exact h.parameterMatch_append (fun hmem => hpiece (hc.mem hmem)) hne hs first

/-- An `&` and a piece. -/
theorem IsKey.deleteAll_cons (h : IsKey key) {piece s : Bytes} (hpiece : andSign ∉ piece)
    (hs : AtEnd s) : deleteAll (parameterMatch key) 0 false (andSign :: (piece ++ s)) =
      leftBehind key piece ++ deleteAll (parameterMatch key) 0 false s := by
  have hfirst : ¬ (false = true ∧ key <+: andSign :: (piece ++ s)) := nofun
  have hmatch := parameterMatch_cons hfirst
  simp only [true_or, true_and, h.prefix_append_iff hs] at hmatch
  obtain ⟨heq, hle⟩ := h.keyMatch_append hpiece hs
  rw [leftBehind]
  split_ifs at hmatch ⊢ with hkey
  · rw [deleteAll, hmatch, heq]
    exact h.deleteAll_piece hpiece hs hle false
  · rw [deleteAll_of_not_match hmatch, h.deleteAll_piece hpiece hs (Nat.zero_le _) false,
      leftOf_of_not_begins hkey, List.cons_append]

theorem atEnd_flatten (pieces : List Bytes) : AtEnd (pieces.map (andSign :: ·)).flatten := by
  cases pieces with
  | nil => exact .inl rfl
  | cons piece pieces => exact .inr ⟨_, rfl⟩

theorem IsKey.deleteAll_flatten (h : IsKey key) {pieces : List Bytes}
    (hpieces : ∀ piece ∈ pieces, andSign ∉ piece) :
    deleteAll (parameterMatch key) 0 false (pieces.map (andSign :: ·)).flatten =
      (pieces.map (leftBehind key)).flatten := by
  induction pieces with
  | nil => rfl
  | cons piece pieces ih =>
    obtain ⟨hpiece, hrest⟩ := List.forall_mem_cons.1 hpieces
    rw [List.map_cons, List.flatten_cons, List.cons_append,
      h.deleteAll_cons hpiece (atEnd_flatten pieces), ih hrest]
    rfl

/-- **What is left of the query**, piece by piece. -/
theorem IsKey.deleteAll_pieces (h : IsKey key) {piece : Bytes} {pieces : List Bytes}
    (hpiece : andSign ∉ piece) (hpieces : ∀ piece ∈ pieces, andSign ∉ piece) :
    deleteAll (parameterMatch key) 0 true ([andSign].intercalate (piece :: pieces)) =
      leftOf key piece ++ (pieces.map (leftBehind key)).flatten := by
  rw [intercalate_cons, h.deleteAll_piece hpiece (atEnd_flatten pieces) (Nat.zero_le _),
    h.deleteAll_first, h.deleteAll_flatten hpieces]

/-! ## Pieces that are kept, and pieces that are touched -/

/-- The pattern finds something in a piece. -/
def Touched (key piece : Bytes) : Prop := key <+: piece ∨ questionMark :: key <:+: piece

instance (key piece : Bytes) : Decidable (Touched key piece) :=
  inferInstanceAs (Decidable (_ ∨ _))

/-- A character that is neither an `&` nor an `=`. -/
def isLetter (c : UInt8) : Bool := c ≠ andSign && c ≠ equalSign

theorem IsKey.countP_pos (h : IsKey key) : 0 < key.countP isLetter := by
  obtain ⟨c, s, rfl⟩ := List.exists_cons_of_ne_nil h.ne_nil
  refine List.countP_pos_iff.2 ⟨c, List.mem_cons_self, ?_⟩
  have hand : c ≠ andSign := fun heq => h.andSign_not_mem (heq ▸ List.mem_cons_self)
  have hequal : c ≠ equalSign := fun heq => h.equalSign_not_mem (heq ▸ List.mem_cons_self)
  simp [isLetter, hand, hequal]

/-- The key is in what a key and its value take. -/
theorem IsKey.countP_keyMatch (h : IsKey key) {s : Bytes} (hkey : key <+: s) :
    0 < (s.take (keyMatch key s)).countP isLetter := by
  have htake : key <+: s.take (keyMatch key s) := by
    rw [List.prefix_take_iff, keyMatch_of_begins hkey]
    exact ⟨hkey, Nat.le_add_right _ _⟩
  exact h.countP_pos.trans_le htake.countP_le

/-- The key is in every match. -/
theorem IsKey.countP_parameterMatch (h : IsKey key) (first : Bool) (s : Bytes)
    (hpos : 0 < parameterMatch key first s) :
    0 < (s.take (parameterMatch key first s)).countP isLetter := by
  by_cases hfirst : first = true ∧ key <+: s
  · rw [parameterMatch_first hfirst]
    exact h.countP_keyMatch hfirst.2
  · cases s with
    | nil =>
      have hzero : parameterMatch key first [] = 0 := if_neg hfirst
      omega
    | cons c s =>
      rw [parameterMatch_cons hfirst] at hpos ⊢
      split_ifs at hpos ⊢ with hcut
      · have hkey := h.countP_keyMatch hcut.2
        rw [List.take_succ_cons, List.countP_cons]
        omega
      · omega

/-- The matches behind the beginning of a piece. -/
theorem isSome_firstMatch_piece {piece : Bytes} (hpiece : andSign ∉ piece) (i : ℕ) :
    (firstMatch (parameterMatch key) i false piece).isSome = true ↔
      questionMark :: key <:+: piece := by
  have hmatch (c : UInt8) (s : Bytes) : 0 < parameterMatch key false (c :: s) ↔
      (c = andSign ∨ c = questionMark) ∧ key <+: s := by
    have hfirst : ¬ (false = true ∧ key <+: c :: s) := nofun
    rw [parameterMatch_cons hfirst]
    split_ifs with hcut
    · exact iff_of_true (Nat.succ_pos _) hcut
    · exact iff_of_false (Nat.lt_irrefl 0) hcut
  rw [isSome_firstMatch_iff, List.infix_iff_prefix_suffix]
  constructor
  · rintro ⟨c, hc, hne, hpos⟩
    obtain ⟨x, s, rfl⟩ := List.exists_cons_of_ne_nil hne
    obtain ⟨rfl | rfl, hkey⟩ := (hmatch x s).1 hpos
    · exact absurd (hc.mem List.mem_cons_self) hpiece
    · exact ⟨questionMark :: s, List.cons_prefix_cons.2 ⟨rfl, hkey⟩, hc⟩
  · rintro ⟨c, ⟨s, rfl⟩, hc⟩
    exact ⟨_, hc, List.cons_ne_nil _ _, (hmatch _ _).2 ⟨.inr rfl, List.prefix_append key s⟩⟩

/-- **A piece that is not touched is kept**, and so is the `&` in front of it. -/
theorem leftBehind_of_not_touched {piece : Bytes} (hpiece : andSign ∉ piece)
    (h : ¬ Touched key piece) :
    leftOf key piece = piece ∧ leftBehind key piece = andSign :: piece := by
  obtain ⟨hbegins, hinside⟩ := not_or.1 h
  have hnone : (firstMatch (parameterMatch key) 0 false piece).isSome = false := by
    rwa [← Bool.not_eq_true, isSome_firstMatch_piece hpiece]
  have hleft : leftOf key piece = piece := by
    rw [leftOf_of_not_begins hbegins, deleteAll_of_firstMatch hnone]
  exact ⟨hleft, by rw [leftBehind, if_neg hbegins, hleft]⟩

/-- **Of a piece that is touched something is lost.** -/
theorem IsKey.countP_leftOf_lt (h : IsKey key) {piece : Bytes} (hpiece : andSign ∉ piece)
    (htouched : Touched key piece) :
    (leftOf key piece).countP isLetter < piece.countP isLetter := by
  by_cases hbegins : key <+: piece
  · have hkey := h.countP_keyMatch hbegins
    have hrest : (leftOf key piece).countP isLetter ≤
        (piece.drop (keyMatch key piece)).countP isLetter := by
      rw [h.leftOf_of_begins hbegins]
      exact (deleteAll_sublist _ 0 false _).countP_le
    have hsplit : piece.countP isLetter = (piece.take (keyMatch key piece)).countP isLetter +
        (piece.drop (keyMatch key piece)).countP isLetter := by
      rw [← List.countP_append, List.take_append_drop]
    omega
  · have hsome := (isSome_firstMatch_piece hpiece 0).2 (htouched.resolve_left hbegins)
    rw [leftOf_of_not_begins hbegins]
    exact countP_deleteAll_lt h.countP_parameterMatch hsome

theorem countP_leftOf_le (key piece : Bytes) :
    (leftOf key piece).countP isLetter ≤ piece.countP isLetter :=
  (deleteAll_sublist _ _ false piece).countP_le

theorem countP_leftBehind (key piece : Bytes) :
    (leftBehind key piece).countP isLetter = (leftOf key piece).countP isLetter := by
  rw [leftBehind]
  split
  · rfl
  · exact List.countP_cons_of_neg (by decide)

/-- A piece is read as a parameter with the key. -/
def HasKey (key piece : Bytes) : Prop := (readParameter piece).key = some key

instance (key piece : Bytes) : Decidable (HasKey key piece) :=
  inferInstanceAs (Decidable (_ = _))

/-- **Of a parameter with the key nothing is left.** -/
theorem IsKey.leftBehind_of_hasKey (h : IsKey key) {piece : Bytes} (hpiece : andSign ∉ piece)
    (hkey : HasKey key piece) : leftOf key piece = [] ∧ leftBehind key piece = [] := by
  have hbefore : before equalSign piece = key := by
    have htext := text_nonempty (before equalSign piece)
    have hfield : nonempty (before equalSign piece) = some key := hkey
    rw [hfield] at htext
    exact htext.symm
  have hsplit := before_append_onward equalSign piece
  rw [hbefore] at hsplit
  have hbegins : key <+: piece := ⟨_, hsplit⟩
  have hdrop : piece.drop key.length = onward equalSign piece := by
    conv_lhs => rw [← hsplit]
    exact List.drop_left
  have hvalue : valueMatch (onward equalSign piece) = (onward equalSign piece).length := by
    by_cases hmem : equalSign ∈ piece
    · have hafter : andSign ∉ after equalSign piece := fun hand => hpiece (mem_of_mem_after hand)
      rw [onward_of_mem hmem, valueMatch, if_pos rfl, before_of_not_mem hafter, List.length_cons]
    · rw [onward_of_not_mem hmem]
      rfl
  have hlength : keyMatch key piece = piece.length := by
    have hsum := congrArg List.length hsplit
    rw [List.length_append] at hsum
    rw [keyMatch_of_begins hbegins, hdrop, hvalue, hsum]
  have hleft : leftOf key piece = [] := by
    rw [h.leftOf_of_begins hbegins, hlength, List.drop_length, deleteAll_nil]
  exact ⟨hleft, by rw [leftBehind, if_pos hbegins, hleft]⟩

end Unalix
