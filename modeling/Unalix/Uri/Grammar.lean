import Unalix.Uri.Parse

/-!
# The grammar of schemes, host names and ports

What the loops of `parse_uri` accept, said without a loop: a scheme is a letter followed by
letters, digits and `+.-` (`checkScheme_eq_ok_iff`), a host name is a sequence of labels between
dots (`checkLabels_eq_ok_iff`), and a port is empty or a number of the port range
(`parsePortNumber_eq_ok_iff`). Each loop returns its input with the letters lowered.
-/

namespace Unalix

open CString Ascii Outcome

/-! ## Schemes -/

/-- A scheme: a letter followed by letters, digits, `+`, `.` and `-`. -/
def SchemeOk (scheme : Bytes) : Prop :=
  (∃ c rest, scheme = c :: rest ∧ isalpha c = true) ∧
    ∀ c ∈ scheme, isalnum c = true ∨ c ∈ schemeSafeSymbols

/-- Past the first character only the alphabet matters. -/
theorem checkScheme_succ_eq_ok_iff {i : ℕ} {s s' : Bytes} :
    checkScheme (i + 1) s = .ok s' ↔
      (∀ c ∈ s, isalnum c = true ∨ c ∈ schemeSafeSymbols) ∧ s' = s.map lower := by
  induction s generalizing i s' with
  | nil => simp [checkScheme, @eq_comm Bytes []]
  | cons c s ih =>
    simp only [checkScheme, Nat.add_eq_zero_iff, one_ne_zero, and_false, decide_false,
      Bool.false_and, Bool.false_eq_true, if_false]
    split
    · rename_i hc
      simp only [Bool.not_eq_true', Bool.or_eq_false_iff, decide_eq_false_iff_not] at hc
      simp [hc]
    · rename_i hc
      simp only [Bool.not_eq_true', Bool.not_eq_false, Bool.or_eq_true, decide_eq_true_eq] at hc
      simp only [bind_eq_ok, ih, pure_eq, Except.ok.injEq, List.forall_mem_cons, hc, true_and,
        List.map_cons]
      constructor
      · rintro ⟨_, ⟨hs, rfl⟩, rfl⟩
        exact ⟨hs, rfl⟩
      · rintro ⟨hs, rfl⟩
        exact ⟨_, ⟨hs, rfl⟩, rfl⟩

theorem checkScheme_eq_ok_iff {s s' : Bytes} (hs : s ≠ []) :
    checkScheme 0 s = .ok s' ↔ SchemeOk s ∧ s' = s.map lower := by
  obtain ⟨c, s, rfl⟩ := List.exists_cons_of_ne_nil hs
  simp only [checkScheme, decide_true, Bool.true_and]
  split
  · rename_i hc
    simp only [Bool.not_eq_true'] at hc
    simp [SchemeOk, hc]
  · rename_i hc
    simp only [Bool.not_eq_true', Bool.not_eq_false] at hc
    have hc' : isalnum c = true := by simp [isalnum, hc]
    simp only [hc', Bool.true_or, Bool.not_true, Bool.false_eq_true, if_false, bind_eq_ok,
      checkScheme_succ_eq_ok_iff, pure_eq, Except.ok.injEq, SchemeOk, List.forall_mem_cons,
      true_or, true_and, List.map_cons]
    constructor
    · rintro ⟨_, ⟨hs, rfl⟩, rfl⟩
      exact ⟨⟨⟨c, s, rfl, hc⟩, hs⟩, rfl⟩
    · rintro ⟨⟨-, hs⟩, rfl⟩
      exact ⟨_, ⟨hs, rfl⟩, rfl⟩

/-- A scheme does not contain the first character of `://`. -/
theorem SchemeOk.colon_not_mem {s : Bytes} (h : SchemeOk s) : colon ∉ s := fun hc =>
  absurd (h.2 colon hc) (by decide)

theorem SchemeOk.ne_nil {s : Bytes} (h : SchemeOk s) : s ≠ [] := by
  obtain ⟨⟨c, rest, rfl, -⟩, -⟩ := h
  simp

/-- What the loop returns is a scheme again. -/
theorem SchemeOk.map_lower {s : Bytes} (h : SchemeOk s) : SchemeOk (s.map lower) := by
  have hsafe : ∀ c ∈ schemeSafeSymbols, lower c = c := by decide
  obtain ⟨⟨c, rest, rfl, hc⟩, hall⟩ := h
  refine ⟨⟨lower c, rest.map lower, rfl, isalpha_lower hc⟩, fun d hd => ?_⟩
  obtain ⟨e, he, rfl⟩ := List.mem_map.1 hd
  rcases hall e he with he | he
  · exact .inl (isalnum_lower he)
  · rw [hsafe e he]
    exact .inr he

/-! ## Host names -/

/-- A label of a host name. -/
structure LabelOk (l : Bytes) : Prop where
  size_min : minLabelSize ≤ l.length
  size_max : l.length ≤ maxLabelSize
  chars : ∀ c ∈ l, isalnum c = true ∨ c = hyphen
  head : l.head? ≠ some hyphen
  last : l.getLast? ≠ some hyphen

/-- A host name: labels between dots. -/
def LabelsOk (h : Bytes) : Prop := ∀ l ∈ h.splitOn dot, LabelOk l

/-- The check at the end of a label whose characters have passed the loop. -/
theorem checkLabelEnd_eq_ok_iff {l : Bytes} {prev : UInt8}
    (hchars : ∀ c ∈ l, isalnum c = true ∨ c = hyphen) (hhead : l.head? ≠ some hyphen)
    (hprev : l ≠ [] → (prev = hyphen ↔ l.getLast? = some hyphen)) :
    checkLabelEnd l.length prev = .ok () ↔ LabelOk l := by
  unfold checkLabelEnd
  split
  · rename_i hmin
    exact iff_of_false (fail_ne_ok _ _) fun h => absurd h.size_min (by omega)
  · rename_i hmin
    have hl : l ≠ [] := by
      rintro rfl
      exact hmin (by decide)
    split
    · rename_i hmax
      exact iff_of_false (fail_ne_ok _ _) fun h => absurd h.size_max (by omega)
    · rename_i hmax
      split
      · rename_i hlast
        exact iff_of_false (fail_ne_ok _ _) fun h => h.last ((hprev hl).1 hlast)
      · rename_i hlast
        exact iff_of_true rfl ⟨by omega, by omega, hchars, hhead,
          fun h => hlast ((hprev hl).2 h)⟩

theorem lower_eq_hyphen_iff {c : UInt8} : lower c = hyphen ↔ c = hyphen :=
  lower_eq_iff (by decide)

/-- The loop over the host name, with the part `l` of the current label read. -/
theorem checkLabels_append_eq_ok_iff {l h h' : Bytes} {prev : UInt8}
    (hchars : ∀ c ∈ l, isalnum c = true ∨ c = hyphen) (hhead : l.head? ≠ some hyphen)
    (hprev : l ≠ [] → (prev = hyphen ↔ l.getLast? = some hyphen)) :
    checkLabels l.length prev h = .ok h' ↔ LabelsOk (l ++ h) ∧ h' = h.map lower := by
  have hdot : dot ∉ l := fun hd => absurd (hchars dot hd) (by decide)
  induction h generalizing l prev h' with
  | nil =>
    simp only [checkLabels, bind_eq_ok, List.append_nil, LabelsOk, splitOn_of_not_mem hdot,
      List.mem_singleton, forall_eq, pure_eq, Except.ok.injEq, List.map_nil,
      ← checkLabelEnd_eq_ok_iff hchars hhead hprev]
    constructor
    · rintro ⟨⟨⟩, h, rfl⟩
      exact ⟨h, rfl⟩
    · rintro ⟨h, rfl⟩
      exact ⟨(), h, rfl⟩
  | cons c h ih =>
    have hfirst (hc : c ≠ dot) : l ++ c :: before dot h ∈ (l ++ c :: h).splitOn dot := by
      have := before_mem_splitOn dot (l ++ c :: h)
      rw [before_append_of_not_mem hdot] at this
      simpa [before, hc] using this
    rw [checkLabels]
    split
    · -- a label that begins with a hyphen
      rename_i hc
      simp only [Bool.and_eq_true, decide_eq_true_eq, List.length_eq_zero_iff] at hc
      obtain ⟨rfl, rfl⟩ := hc
      refine iff_of_false (fail_ne_ok _ _) fun hl => ?_
      exact (hl.1 _ (hfirst (by decide))).head rfl
    · rename_i hc
      split
      · -- the label ends at a dot
        rename_i hdot'
        subst hdot'
        have ih' := @ih [] h'.tail dot (by simp) (by simp) (by simp) (by simp)
        simp only [List.length_nil, List.nil_append] at ih'
        simp only [bind_eq_ok, pure_eq, Except.ok.injEq, LabelsOk, splitOn_cut hdot,
          List.forall_mem_cons, ← checkLabelEnd_eq_ok_iff hchars hhead hprev, List.map_cons]
        constructor
        · rintro ⟨⟨⟩, hend, g, hg, rfl⟩
          obtain ⟨hl, hg'⟩ := ih'.1 hg
          rw [List.tail_cons] at hg'
          exact ⟨⟨hend, hl⟩, by rw [hg', lower_of_not_isupper (by decide)]⟩
        · rintro ⟨⟨hend, hl⟩, rfl⟩
          rw [List.tail_cons] at ih'
          exact ⟨(), hend, _, ih'.2 ⟨hl, rfl⟩, by rw [lower_of_not_isupper (by decide)]⟩
      · rename_i hdot'
        split
        · rename_i hchar
          simp only [Bool.not_eq_true', Bool.or_eq_false_iff, decide_eq_false_iff_not] at hchar
          refine iff_of_false (fail_ne_ok _ _) fun hl => ?_
          exact absurd ((hl.1 _ (hfirst hdot')).chars c (by simp)) (by simp [hchar])
        · -- the label goes on
          rename_i hchar
          simp only [Bool.not_eq_true', Bool.not_eq_false, Bool.or_eq_true,
            decide_eq_true_eq] at hchar
          have hhead' : (l ++ [c]).head? ≠ some hyphen := by
            cases l with
            | nil => simpa using hc
            | cons b l => simpa using hhead
          have ih' := fun g => @ih (l ++ [c]) g (lower c)
            (by simpa [or_imp, forall_and] using ⟨hchars, hchar⟩) hhead'
            (by simp [lower_eq_hyphen_iff]) (by simpa [hdot] using Ne.symm hdot')
          simp only [List.length_append, List.length_singleton, List.append_assoc,
            List.singleton_append] at ih'
          simp only [bind_eq_ok, ih', pure_eq, Except.ok.injEq, List.map_cons]
          constructor
          · rintro ⟨_, ⟨hl, rfl⟩, rfl⟩
            exact ⟨hl, rfl⟩
          · rintro ⟨hl, rfl⟩
            exact ⟨_, ⟨hl, rfl⟩, rfl⟩

/-- **The loop over the host name accepts the host names**, and lowers their letters. -/
theorem checkLabels_eq_ok_iff {h h' : Bytes} :
    checkLabels 0 0 h = .ok h' ↔ LabelsOk h ∧ h' = h.map lower :=
  checkLabels_append_eq_ok_iff (l := []) (by simp) (by simp) (by simp)

/-- A host name consists of letters, digits, hyphens and dots. -/
theorem LabelsOk.chars {h : Bytes} (hh : LabelsOk h) :
    ∀ c ∈ h, isalnum c = true ∨ c = hyphen ∨ c = dot := by
  intro c hc
  rcases mem_splitOn_of_mem (c := dot) hc with rfl | ⟨l, hl, hcl⟩
  · exact .inr (.inr rfl)
  · exact ((hh l hl).chars c hcl).imp_right .inl

/-- What the loop returns is a host name again. -/
theorem LabelsOk.map_lower {h : Bytes} (hh : LabelsOk h) : LabelsOk (h.map lower) := by
  unfold LabelsOk
  rw [splitOn_map fun c => lower_eq_iff (by decide)]
  intro l hl
  obtain ⟨m, hm, rfl⟩ := List.mem_map.1 hl
  have hok := hh m hm
  refine ⟨?_, ?_, ?_, ?_, ?_⟩
  · rw [List.length_map]
    exact hok.size_min
  · rw [List.length_map]
    exact hok.size_max
  · intro c hc
    obtain ⟨d, hd, rfl⟩ := List.mem_map.1 hc
    exact (hok.chars d hd).imp isalnum_lower lower_eq_hyphen_iff.2
  · rw [List.head?_map]
    intro hhead
    obtain ⟨d, hd, hlow⟩ := Option.map_eq_some_iff.1 hhead
    exact hok.head (hd.trans (congrArg some (lower_eq_hyphen_iff.1 hlow)))
  · rw [List.getLast?_map]
    intro hlast
    obtain ⟨d, hd, hlow⟩ := Option.map_eq_some_iff.1 hlast
    exact hok.last (hd.trans (congrArg some (lower_eq_hyphen_iff.1 hlow)))

/-! ## Ports -/

/-- The text after the `:` of an authority: empty, or a number of the port range. -/
def PortOk (value : Bytes) : Prop :=
  value = [] ∨ (∀ c ∈ value, isdigit c = true) ∧
    minPortNumber ≤ atoi value ∧ atoi value ≤ maxPortNumber

theorem parsePortNumber_eq_ok_iff {obj u : URI} {value : Bytes} (hv : value ≠ []) :
    parsePortNumber obj value = .ok u ↔ PortOk value ∧ u = { obj with port := atoi value } := by
  simp only [PortOk, hv, false_or, ← isnumeric_iff]
  unfold parsePortNumber
  split_ifs with h₁ h₂ h₃
  · exact iff_of_false (fail_ne_ok _ _) fun h => by simp [h.1.1] at h₁
  · exact iff_of_false (fail_ne_ok _ _) fun h => by omega
  · exact iff_of_false (fail_ne_ok _ _) fun h => by omega
  · simp only [Bool.not_eq_true', Bool.not_eq_false] at h₁
    rw [Except.ok.injEq, eq_comm]
    exact (and_iff_right ⟨h₁, by omega, by omega⟩).symm

/-- The printed number of a port. -/
theorem portOk_decimal {port : ℤ} (hmin : minPortNumber ≤ port) (hmax : port ≤ maxPortNumber) :
    PortOk (decimal port.toNat) ∧ atoi (decimal port.toNat) = port := by
  have hone : minPortNumber = 1 := rfl
  have htop : maxPortNumber = 65535 := rfl
  have hvalue : atoi (decimal port.toNat) = port := by
    rw [atoi_of_lt (isdigit_decimal _), digitsValue_decimal]
    · omega
    · rw [digitsValue_decimal]
      omega
  refine ⟨.inr ⟨isdigit_decimal _, ?_⟩, hvalue⟩
  rw [hvalue]
  exact ⟨hmin, hmax⟩

theorem PortOk.isdigit {value : Bytes} (h : PortOk value) : ∀ c ∈ value, isdigit c = true := by
  rcases h with rfl | h
  · simp
  · exact h.1

theorem PortOk.pos {value : Bytes} (h : PortOk value) (hv : value ≠ []) : 0 < atoi value := by
  have hmin : minPortNumber ≤ atoi value := (h.resolve_left hv).2.1
  have hone : minPortNumber = 1 := rfl
  omega

end Unalix
