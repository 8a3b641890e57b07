import Unalix.Uri.Sizes

/-!
# Every run of the parser returns

A size that underflows asks for more memory than there is, so the run ends with a code. Only a size
of `-1` would let a copy run, and there are at least two bytes between delimiters that are not in
order. So every run of `uri_parse` returns, and the code for a missing scheme is returned only when
the string has no `://` (`uriParse_pastScheme`).
-/

namespace Unalix

open CString Ascii Outcome

/-! ## The code for a missing scheme -/

/-- A call that succeeds or returns a code, but not the one for a missing scheme. -/
def PastScheme {α : Type} (r : Outcome α) : Prop :=
  ∀ e, r = .error e → ∃ c, e = .code c ∧ c ≠ .uriSchemeMissing

theorem pastScheme_ok {α : Type} (x : α) : PastScheme (.ok x) := by
  intro e h
  cases h

theorem pastScheme_fail {α : Type} {c : ErrorCode} (hc : c ≠ .uriSchemeMissing) :
    PastScheme (fail c : Outcome α) := by
  intro e h
  cases h
  exact ⟨c, rfl, hc⟩

theorem PastScheme.bind {α β : Type} {r : Outcome α} {f : α → Outcome β} (hr : PastScheme r)
    (hf : ∀ x, PastScheme (f x)) : PastScheme (r >>= f) := by
  cases r with
  | error e =>
    intro e' h
    cases h
    exact hr e rfl
  | ok x => exact hf x

theorem checkScheme_pastScheme (index : ℕ) (scheme : Bytes) :
    PastScheme (checkScheme index scheme) := by
  induction scheme generalizing index with
  | nil => exact pastScheme_ok _
  | cons ch scheme ih =>
    rw [checkScheme]
    split_ifs
    · exact pastScheme_fail (by decide)
    · exact pastScheme_fail (by decide)
    · exact (ih _).bind fun _ => pastScheme_ok _

theorem checkLabelEnd_pastScheme (labelLength : ℕ) (prev : UInt8) :
    PastScheme (checkLabelEnd labelLength prev) := by
  unfold checkLabelEnd
  split_ifs
  · exact pastScheme_fail (by decide)
  · exact pastScheme_fail (by decide)
  · exact pastScheme_fail (by decide)
  · exact pastScheme_ok _

theorem checkLabels_pastScheme (labelLength : ℕ) (prev : UInt8) (hostname : Bytes) :
    PastScheme (checkLabels labelLength prev hostname) := by
  induction hostname generalizing labelLength prev with
  | nil => exact (checkLabelEnd_pastScheme labelLength prev).bind fun _ => pastScheme_ok _
  | cons ch hostname ih =>
    rw [checkLabels]
    split_ifs
    · exact pastScheme_fail (by decide)
    · exact (checkLabelEnd_pastScheme labelLength prev).bind fun _ =>
        (ih _ _).bind fun _ => pastScheme_ok _
    · exact pastScheme_fail (by decide)
    · exact (ih _ _).bind fun _ => pastScheme_ok _

theorem parsePortNumber_pastScheme (obj : URI) (value : Bytes) :
    PastScheme (parsePortNumber obj value) := by
  unfold parsePortNumber
  split_ifs
  · exact pastScheme_fail (by decide)
  · exact pastScheme_fail (by decide)
  · exact pastScheme_fail (by decide)
  · exact pastScheme_ok _

theorem parsePort_pastScheme (obj : URI) (isIpv6 : Bool)
    (hostnameEnd portStart p q f : Option Bytes) :
    PastScheme (parsePort obj isIpv6 hostnameEnd portStart p q f) := by
  cases portStart with
  | none => exact pastScheme_ok _
  | some s =>
    simp only [parsePort]
    split_ifs
    · exact (parsePortNumber_pastScheme _ _).bind fun _ => pastScheme_ok _
    · exact (parsePortNumber_pastScheme _ _).bind fun _ => pastScheme_ok _
    · exact pastScheme_ok _
    · exact pastScheme_ok _
    · exact pastScheme_ok _

theorem checkHostnameSize_pastScheme (isIpv6 : Bool) (size : ℤ) :
    PastScheme (checkHostnameSize isIpv6 size) := by
  unfold checkHostnameSize
  split_ifs
  · exact pastScheme_fail (by decide)
  · exact pastScheme_fail (by decide)
  · exact pastScheme_ok _
  · exact pastScheme_fail (by decide)
  · exact pastScheme_fail (by decide)
  · exact pastScheme_ok _

theorem setHostname_pastScheme (obj : URI) (isIpv6 : Bool) (start stop : Bytes) :
    PastScheme (setHostname obj isIpv6 start stop) := by
  refine (checkHostnameSize_pastScheme isIpv6 _).bind fun _ => ?_
  dsimp only
  split_ifs
  · exact pastScheme_fail (by decide)
  · exact pastScheme_ok _
  · exact (checkLabels_pastScheme _ _ _).bind fun _ => pastScheme_ok _

theorem hostPointers_pastScheme (s : Bytes) : PastScheme (hostPointers s) := by
  unfold hostPointers
  split_ifs
  · cases strstr s [bracketEnd] with
    | none => exact pastScheme_fail (by decide)
    | some e => exact pastScheme_ok _
  · exact pastScheme_ok _

/-- Between two delimiters that are not in order there are at least two bytes, so the size is
below `-1`. -/
theorem copyComponent_pastScheme {c d : UInt8} (hcd : c ≠ d) (t : Bytes) :
    PastScheme (copyComponent (strstr t [c]) (text (strstr t [d]))) := by
  by_cases hprec : Precedes c d t
  · rw [(copyComponent_eq_ok_iff hcd).2 ⟨hprec, rfl⟩]
    exact pastScheme_ok _
  · have hmem : d ∈ t ∧ c ∈ t ∧ c ∉ before d t := by
      simp only [Precedes] at hprec
      tauto
    obtain ⟨x, y, rfl, hx⟩ := List.eq_append_cons_of_mem hmem.1
    have hcx : c ∉ x ++ [d] := by
      have hcx := hmem.2.2
      rw [before_cut hx] at hcx
      simp [hcx, hcd]
    have hassoc : x ++ d :: y = (x ++ [d]) ++ y := by simp
    have hcy : c ∈ y := by
      have := hmem.2.1
      rw [hassoc, List.mem_append] at this
      exact this.resolve_left hcx
    obtain ⟨v, w, rfl, hv⟩ := List.eq_append_cons_of_mem hcy
    rw [strstr_singleton_cut hx, hassoc, strstr_singleton_append hcx, strstr_singleton_cut hv]
    have hsize : sizeBetween w (d :: (v ++ c :: w)) < -1 := by
      simp only [sizeBetween, List.length_cons, List.length_append]
      omega
    simp only [copyComponent, text, Option.getD_some, List.drop_one, List.tail_cons, copyRange]
    rw [if_neg (by omega), if_neg (by omega), if_neg (by omega)]
    exact pastScheme_fail (by decide)

/-- The scheme is missing when there is no `://`. -/
theorem uriParse_of_no_separator {uri : Bytes} (h : strstr uri schemeSeparator = none) :
    uriParse {} uri = fail .uriSchemeMissing := by
  rw [uriParse, parseUri, parseScheme, h, fail_bind]

/-- **With a `://`, every run returns**, also when a size underflows, and not with the code for a
missing scheme. -/
theorem uriParse_pastScheme {uri : Bytes} (h : strstr uri schemeSeparator ≠ none) :
    PastScheme (uriParse {} uri) := by
  have hscheme : PastScheme (parseScheme uri) := by
    unfold parseScheme
    cases hfind : strstr uri schemeSeparator with
    | none => exact absurd hfind h
    | some schemeEnd =>
      dsimp only
      split_ifs
      · exact pastScheme_fail (by decide)
      · exact (checkScheme_pastScheme _ _).bind fun _ => pastScheme_ok _
  refine hscheme.bind fun (scheme, r) => ?_
  obtain ⟨userinfo, h, rfl, hinfo, hno⟩ := exists_userinfo r
  simp only [Reading.parseUserinfo_text hinfo hno, ok_bind, parseHost_eq]
  refine PastScheme.bind ?_ fun obj => ?_
  · exact (hostPointers_pastScheme h).bind fun _ =>
      (parsePort_pastScheme _ _ _ _ _ _ _).bind fun _ => setHostname_pastScheme _ _ _ _
  · simp only [parseComponents, copyComponent_hashtag, ok_bind]
    exact (copyComponent_pastScheme (by decide) h).bind fun _ =>
      (copyComponent_pastScheme (by decide) h).bind fun _ => pastScheme_ok _

theorem returns_uriParse (uri : Bytes) : Returns (uriParse {} uri) := by
  by_cases h : strstr uri schemeSeparator = none
  · rw [uriParse_of_no_separator h]
    exact returns_fail _
  · intro f hf
    obtain ⟨e, he, -⟩ := uriParse_pastScheme h _ hf
    cases he

end Unalix
