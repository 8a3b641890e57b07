import Unalix.Uri.Confinement

/-!
# Parsing a printed URI

`WellFormed u` collects the rules that a URI built by hand should keep, and `uri_parse` should give
it back after `uri_stringify`. It does so exactly when the fragment does not come without a query,
which the path would take along, and when no `@` of path, query or fragment stands in for that of
an absent userinfo (`uriParse_uriStringify_iff`).
-/

namespace Unalix

open CString Ascii Outcome

/-- A URI whose components keep to their own characters. -/
structure WellFormed (u : URI) : Prop where
  scheme : ∃ c rest, u.scheme = some (c :: rest) ∧ islower c = true ∧
    ∀ d ∈ rest, islower d = true ∨ isdigit d = true ∨ d ∈ schemeSafeSymbols
  authentication : u.hasAuthentication = if u.username = none ∧ u.password = none then 0 else 1
  username : ∀ s ∈ u.username, s ≠ [] ∧ colon ∉ s ∧ atSign ∉ s ∧ NoDelim s
  password : ∀ s ∈ u.password, s ≠ [] ∧ atSign ∉ s ∧ NoDelim s
  host : ∃ h, u.hostname = some h ∧
    (u.isIpv6 = 0 ∧ h.map lower = h ∧ LabelsOk h ∧ minHostnameSize ≤ h.length ∧
        h.length ≤ maxHostnameSize ∨
      u.isIpv6 = 1 ∧ isipv6 h = true ∧ minIpv6AddressSize ≤ h.length ∧
        h.length ≤ maxIpv6AddressSize)
  port : 0 ≤ u.port ∧ u.port ≤ maxPortNumber
  path : ∀ s ∈ u.path, s ≠ [] ∧ questionMark ∉ s ∧ hashtag ∉ s
  query : ∀ s ∈ u.query, s ≠ [] ∧ hashtag ∉ s
  fragment : ∀ s ∈ u.fragment, s ≠ []

/-- Nothing of the tail is taken for another component. -/
structure Unambiguous (u : URI) : Prop where
  fragment : u.fragment = none ∨ u.query ≠ none
  at_sign : u.hasAuthentication = 1 ∨
    atSign ∉ text u.path ∧ atSign ∉ text u.query ∧ atSign ∉ text u.fragment

/-! ## The parts of a printed URI -/

/-- The userinfo that is printed. -/
def userinfoOf (u : URI) : Option Bytes :=
  if u.hasAuthentication ≠ 0 then some (text u.username ++ colon :: text u.password) else none

/-- The port that is printed, with its `:`. -/
def portOf (u : URI) : Bytes := if 0 < u.port then colon :: decimal u.port.toNat else []

/-- The host and port that are printed. -/
def authorityOf (u : URI) : Bytes :=
  (if u.isIpv6 ≠ 0 then bracketStart :: (text u.hostname ++ [bracketEnd]) else text u.hostname) ++
    portOf u

/-- A component with its delimiter, if it is there. -/
def componentOf (c : UInt8) (field : Option Bytes) : Bytes :=
  match field with
  | none => []
  | some s => c :: s

/-- What is printed after the slash that follows the authority. -/
def restOf (u : URI) : Bytes :=
  text u.path ++ (componentOf questionMark u.query ++ componentOf hashtag u.fragment)

namespace WellFormed

variable {u : URI}

theorem uriStringify_eq (h : WellFormed u) : uriStringify u =
    joinUri (text u.scheme) (Reading.userinfoText (userinfoOf u))
      (authorityOf u ++ slash :: restOf u) := by
  obtain ⟨c, rest, hs, -⟩ := h.scheme
  obtain ⟨host, hh, -⟩ := h.host
  have hcomp (c : UInt8) (field : Option Bytes) :
      (if field.isSome then c :: text field else []) = componentOf c field := by
    cases field <;> rfl
  have hinfo : (if u.hasAuthentication ≠ 0 then
      text u.username ++ [colon] ++ text u.password ++ [atSign] else []) =
      Reading.userinfoText (userinfoOf u) := by
    unfold userinfoOf
    split_ifs <;> simp [Reading.userinfoText]
  have hhost : (if u.hostname.isSome then (if u.isIpv6 ≠ 0 then [bracketStart] else []) ++
      text u.hostname ++ (if u.isIpv6 ≠ 0 then [bracketEnd] else []) else []) =
      if u.isIpv6 ≠ 0 then bracketStart :: (text u.hostname ++ [bracketEnd])
        else text u.hostname := by
    rw [hh]
    simp only [Option.isSome_some, if_true]
    split_ifs <;> simp
  have hscheme : (if u.scheme.isSome then text u.scheme ++ schemeSeparator else []) =
      text u.scheme ++ schemeSeparator := by
    rw [hs]
    rfl
  rw [uriStringify, hscheme, hinfo, hhost, hcomp, hcomp]
  simp only [joinUri, authorityOf, restOf, portOf, List.append_assoc, List.cons_append,
    List.nil_append]

theorem schemeOk (h : WellFormed u) :
    SchemeOk (text u.scheme) ∧ some ((text u.scheme).map lower) = u.scheme := by
  obtain ⟨c, rest, hs, hc, hrest⟩ := h.scheme
  have hlower {d : UInt8} (hd : islower d = true ∨ isdigit d = true ∨ d ∈ schemeSafeSymbols) :
      lower d = d := by
    apply lower_of_not_isupper
    rcases hd with hd | hd | hd
    · simp only [islower, isupper, Bool.and_eq_true, decide_eq_true_eq, Bool.and_eq_false_iff,
        decide_eq_false_iff_not] at *
      grind
    · simp only [isdigit, isupper, Bool.and_eq_true, decide_eq_true_eq, Bool.and_eq_false_iff,
        decide_eq_false_iff_not] at *
      grind
    · revert hd
      revert d
      decide
  have hall : ∀ d ∈ c :: rest, islower d = true ∨ isdigit d = true ∨ d ∈ schemeSafeSymbols :=
    List.forall_mem_cons.2 ⟨.inl hc, hrest⟩
  have hmap : (c :: rest).map lower = c :: rest :=
    (List.map_congr_left fun d hd => hlower (hall d hd)).trans (List.map_id' _)
  rw [hs, text, Option.getD_some, hmap]
  refine ⟨⟨⟨c, rest, rfl, by simp [isalpha, hc]⟩, fun d hd => ?_⟩, rfl⟩
  rcases hall d hd with hd | hd | hd
  · exact .inl (by simp [isalnum, isalpha, hd])
  · exact .inl (by simp [isalnum, hd])
  · exact .inr hd

/-! ## The authority -/

/-- The text after the `:` of the port that is printed. -/
def portDigits (u : URI) : Bytes := if 0 < u.port then decimal u.port.toNat else []

theorem portOk (h : WellFormed u) : PortOk (portDigits u) ∧ atoi (portDigits u) = u.port := by
  have hmin : minPortNumber = 1 := rfl
  obtain ⟨hnonneg, hle⟩ := h.port
  unfold portDigits
  split_ifs with hpos
  · exact portOk_decimal (by omega) hle
  · exact ⟨.inl rfl, show (0 : ℤ) = u.port by omega⟩

theorem before_portOf {x : Bytes} (hx : colon ∉ x) :
    before colon (x ++ portOf u) = x ∧ after colon (x ++ portOf u) = portDigits u := by
  unfold portOf portDigits
  split_ifs
  · exact ⟨before_cut hx _, after_cut hx _⟩
  · rw [List.append_nil]
    exact ⟨before_of_not_mem hx, after_of_not_mem hx⟩

/-- The characters of an address end neither it nor the authority. -/
theorem not_mem_of_isipv6 {x : Bytes} (hx : isipv6 x = true) {c : UInt8}
    (hc : c = bracketEnd ∨ c = atSign ∨ IsDelim c) : c ∉ x := by
  intro hm
  have := isAddressChar_of_isipv6 hx c hm
  rcases hc with rfl | rfl | rfl | rfl | rfl <;> exact absurd this (by decide)

theorem not_mem_portOf {c : UInt8} (hc : c = atSign ∨ IsDelim c) :
    c ∉ portOf u := by
  intro hm
  unfold portOf at hm
  split_ifs at hm
  · rcases List.mem_cons.1 hm with rfl | hm
    · revert hc
      decide
    · have := isdigit_decimal _ c hm
      rcases hc with rfl | rfl | rfl | rfl <;> exact absurd this (by decide)
  · simp at hm

theorem not_mem_authorityOf (h : WellFormed u) {c : UInt8} (hc : c = atSign ∨ IsDelim c) :
    c ∉ authorityOf u := by
  obtain ⟨host, hh, hhost⟩ := h.host
  have hport := not_mem_portOf (u := u) hc
  rw [authorityOf, hh, text, Option.getD_some]
  rcases hhost with ⟨h6, -, hl, -⟩ | ⟨h6, hi, -⟩
  · have hno : c ∉ host := by
      intro hm
      have := hl.chars c hm
      rcases hc with rfl | rfl | rfl | rfl <;> exact absurd this (by decide)
    simp [h6, hno, hport]
  · have hno := not_mem_of_isipv6 hi (.inr hc)
    have hb : c ≠ bracketStart ∧ c ≠ bracketEnd := by
      rcases hc with rfl | rfl | rfl | rfl <;> decide
    simp [h6, hno, hport, hb]

/-- The host that is printed is read back. -/
theorem hostOk (h : WellFormed u) {x : Bytes} : HostOk (authorityOf u) (slash :: x) ∧
    some (readHostname (authorityOf u)) = u.hostname ∧ readIsIpv6 (authorityOf u) = u.isIpv6 ∧
    atoi (readPort (authorityOf u) (slash :: x)) = u.port := by
  obtain ⟨host, hh, hhost⟩ := h.host
  obtain ⟨hpok, hport⟩ := h.portOk
  have hsq : slash ≠ questionMark := by decide
  have hsh : slash ≠ hashtag := by decide
  rcases hhost with ⟨h6, hlow, hl, hmin, hmax⟩ | ⟨h6, hi, hmin, hmax⟩
  · obtain ⟨hb, ha⟩ := before_portOf (u := u) hl.colon_not_mem
    have hA : authorityOf u = host ++ portOf u := by simp [authorityOf, hh, h6, text]
    have hhead := hl.head?_ne_bracketStart hmin (portOf u)
    unfold HostOk readHostname readIsIpv6 readPort
    rw [hA, if_neg hhead, if_neg hhead, if_neg hhead, if_neg hhead, hb, ha, hlow]
    refine ⟨⟨?_, ?_, ?_, ?_, ?_, ?_⟩, hh.symm, h6.symm, hport⟩
    · rwa [hb]
    · rwa [hb]
    · rwa [hb]
    · rwa [ha]
    · intro hq
      simp [hsq] at hq
    · intro hq
      simp [hsh] at hq
  · have hno : bracketEnd ∉ host := not_mem_of_isipv6 hi (.inl rfl)
    have hA : authorityOf u = bracketStart :: (host ++ bracketEnd :: portOf u) := by
      simp [authorityOf, hh, h6, text]
    have htext : portText (portOf u) (slash :: x) = portDigits u := by
      have hq : (slash :: x).head? ≠ some questionMark := by simp [hsq]
      rw [portText, portRegion, if_neg hq, if_pos (by simp), before_cons_self, List.append_nil]
      exact (before_portOf (u := u) (x := []) (by simp)).2
    unfold HostOk readHostname readIsIpv6 readPort
    rw [hA]
    simp only [List.head?_cons, if_true, List.tail_cons, before_cut hno, after_cut hno, htext]
    refine ⟨⟨by simp, ?_, ?_, ?_, ?_⟩, hh.symm, h6.symm, hport⟩
    · rwa [before_cut hno]
    · rwa [before_cut hno]
    · rwa [before_cut hno]
    · rwa [after_cut hno, htext]

/-! ## The userinfo -/

/-- The credentials that are printed are read back. -/
theorem userinfo_eq (h : WellFormed u) :
    nonempty (before colon ((userinfoOf u).getD [])) = u.username ∧
      nonempty (after colon ((userinfoOf u).getD [])) = u.password ∧
      authenticated ((userinfoOf u).getD []) = u.hasAuthentication := by
  have hauth := h.authentication
  have huser : colon ∉ text u.username := by
    rcases hu : u.username with _ | s
    · simp [text]
    · exact (h.username s hu).2.1
  have hu := nonempty_text fun s hs => (h.username s hs).1
  have hp := nonempty_text fun s hs => (h.password s hs).1
  unfold userinfoOf authenticated
  split_ifs at hauth with hnone
  · simp only [hauth, ne_eq, not_true_eq_false, if_false, Option.getD_none]
    simp [before, after, hnone]
  · simp only [hauth, ne_eq, one_ne_zero, not_false_eq_true, if_true, Option.getD_some,
      before_cut huser, after_cut huser, hu, hp]
    simp [hnone]

theorem userinfo_not_mem (h : WellFormed u) : ∀ info ∈ userinfoOf u, atSign ∉ info := by
  intro info hinfo
  unfold userinfoOf at hinfo
  split_ifs at hinfo
  · obtain rfl := Option.some.inj hinfo
    have huser : atSign ∉ text u.username := by
      rcases hu : u.username with _ | s
      · simp [text]
      · exact (h.username s hu).2.2.1
    have hpass : atSign ∉ text u.password := by
      rcases hp : u.password with _ | s
      · simp [text]
      · exact (h.password s hp).2.1
    simp [huser, hpass, show atSign ≠ colon by decide]
  · cases hinfo

theorem hasAuthentication_eq (h : WellFormed u) :
    u.hasAuthentication = 0 ∨ u.hasAuthentication = 1 := by
  have := h.authentication
  split_ifs at this
  · exact .inl this
  · exact .inr this

/-! ## The tail -/

theorem not_mem_path (h : WellFormed u) :
    questionMark ∉ text u.path ∧ hashtag ∉ text u.path := by
  rcases hp : u.path with _ | s
  · simp [text]
  · exact (h.path s hp).2

/-- With the fragment unambiguous, path, query and fragment are read back. -/
theorem tail_eq (h : WellFormed u) (hf : u.fragment = none ∨ u.query ≠ none) :
    TailOk (slash :: restOf u) ∧ readPath (slash :: restOf u) = u.path ∧
      readQuery (slash :: restOf u) = u.query ∧
      readFragment (slash :: restOf u) = u.fragment := by
  have hsq : questionMark ≠ slash := by decide
  have hsh : hashtag ≠ slash := by decide
  have hqh : hashtag ≠ questionMark := by decide
  obtain ⟨hpq, hph⟩ := h.not_mem_path
  have hpath := nonempty_text fun s hs => (h.path s hs).1
  have hskip {c : UInt8} (hc : c ≠ slash) (y : Bytes) : after c (slash :: y) = after c y :=
    after_append_of_not_mem (a := [slash]) (by simpa using hc) y
  unfold readPath readQuery readFragment
  rw [after_cons_self, hskip hsq, hskip hsh]
  rcases hq : u.query with _ | q
  · have hnone : u.fragment = none := hf.resolve_right (by simp [hq])
    have hrest : restOf u = text u.path := by simp [restOf, hq, hnone, componentOf]
    rw [hrest, hnone, before_of_not_mem hpq, after_of_not_mem hpq, after_of_not_mem hph, hpath]
    exact ⟨.path fun hh => absurd hh hph, rfl, rfl, rfl⟩
  · obtain ⟨hqne, hqh'⟩ := h.query q hq
    have hrest : restOf u = text u.path ++ questionMark :: (q ++ componentOf hashtag u.fragment) := by
      simp [restOf, hq, componentOf]
    have hno : hashtag ∉ text u.path ++ questionMark :: q := by simp [hph, hqh', hqh]
    have hrest' : restOf u = (text u.path ++ questionMark :: q) ++ componentOf hashtag u.fragment := by
      simp [hrest]
    have hprec : Precedes questionMark hashtag (restOf u) := by
      intro _ _
      rw [hrest', before_append_of_not_mem hno]
      simp
    refine ⟨.path hprec, ?_, ?_, ?_⟩
    · rw [hrest, before_cut hpq, hpath]
    · rw [hrest, after_cut hpq, before_append_of_not_mem hqh', ← nonempty_of_ne_nil hqne]
      cases u.fragment with
      | none => simp [componentOf, before]
      | some f => simp [componentOf]
    · rw [hrest', after_append_of_not_mem hno]
      rcases hfr : u.fragment with _ | f
      · rfl
      · rw [componentOf, after_cons_self]
        exact nonempty_of_ne_nil (h.fragment f hfr)

/-- A fragment without a query becomes a part of the path. -/
theorem readPath_ne (h : WellFormed u) (hq : u.query = none) (hf : u.fragment ≠ none)
    (ht : TailOk (slash :: restOf u)) : readPath (slash :: restOf u) ≠ u.path := by
  obtain ⟨f, hf⟩ := Option.ne_none_iff_exists'.1 hf
  obtain ⟨hpq, hph⟩ := h.not_mem_path
  have hrest : restOf u = text u.path ++ hashtag :: f := by simp [restOf, hq, hf, componentOf]
  have hno : questionMark ∉ restOf u := by
    intro hm
    cases ht with
    | path hprec =>
      have := hprec (by simp [hrest]) hm
      rw [hrest, before_cut hph] at this
      exact hpq this
  intro heq
  have htext := congrArg text heq
  rw [readPath, after_cons_self, before_of_not_mem hno, text_nonempty, hrest] at htext
  exact hph (by rw [← htext]; simp)

end WellFormed

/-! ## The round trip -/

namespace WellFormed

variable {u : URI}

/-- The `@` of a tail is one of path, query or fragment. -/
theorem atSign_mem_restOf_iff : atSign ∉ slash :: restOf u ↔
    atSign ∉ text u.path ∧ atSign ∉ text u.query ∧ atSign ∉ text u.fragment := by
  have hcomp {c : UInt8} (hc : atSign ≠ c) (field : Option Bytes) :
      atSign ∉ componentOf c field ↔ atSign ∉ text field := by
    cases field <;> simp [componentOf, text, hc]
  rw [restOf, List.mem_cons, List.mem_append, List.mem_append, not_or, not_or, not_or,
    hcomp (by decide), hcomp (by decide), and_iff_right (by decide)]

theorem noDelim_userinfo (h : WellFormed u) :
    NoDelim (Reading.userinfoText (userinfoOf u) ++ authorityOf u) := by
  intro c hc hd
  rcases List.mem_append.1 hc with hc | hc
  · unfold userinfoOf at hc
    split_ifs at hc
    · have huser : c ∉ text u.username := by
        rcases hu : u.username with _ | s
        · simp [text]
        · exact (h.username s hu).2.2.2.not_mem hd
      have hpass : c ∉ text u.password := by
        rcases hp : u.password with _ | s
        · simp [text]
        · exact (h.password s hp).2.2.not_mem hd
      have hne : c ≠ colon ∧ c ≠ atSign := by
        rcases hd with rfl | rfl | rfl <;> decide
      simp [Reading.userinfoText, huser, hpass, hne] at hc
    · simp [Reading.userinfoText] at hc
  · exact h.not_mem_authorityOf (.inr hd) hc

/-- The reading of the printed URI, if it is unambiguous. -/
theorem uriParse_uriStringify (h : WellFormed u) (hu : Unambiguous u) :
    uriParse {} (uriStringify u) = .ok u := by
  obtain ⟨hscheme, hlow⟩ := h.schemeOk
  obtain ⟨huser, hpass, hauth⟩ := h.userinfo_eq
  obtain ⟨hhost, hname, h6, hport⟩ := h.hostOk (x := restOf u)
  obtain ⟨htail, hpath, hquery, hfragment⟩ := h.tail_eq hu.fragment
  have hno : userinfoOf u = none → atSign ∉ authorityOf u ++ slash :: restOf u := by
    intro hnone
    have hzero : u.hasAuthentication = 0 := by
      by_contra hne
      simp [userinfoOf, hne] at hnone
    have hat := atSign_mem_restOf_iff.2 (hu.at_sign.resolve_left (by omega))
    rw [List.mem_append, not_or]
    exact ⟨h.not_mem_authorityOf (.inl rfl), hat⟩
  let R : Reading := ⟨text u.scheme, userinfoOf u, authorityOf u, slash :: restOf u, hscheme,
    h.userinfo_not_mem, hno, fun c hc hd => h.not_mem_authorityOf (.inr hd) hc, htail, hhost⟩
  rw [uriParse_eq_ok_iff, h.uriStringify_eq]
  exact ⟨R, rfl, URI.ext h6 hauth huser hpass hlow hname hport hpath hquery hfragment⟩

end WellFormed

/-- **`uri_parse` undoes `uri_stringify`** on a well-formed URI if and only if it is unambiguous. -/
theorem uriParse_uriStringify_iff {u : URI} (h : WellFormed u) :
    uriParse {} (uriStringify u) = .ok u ↔ Unambiguous u := by
  refine ⟨fun hok => ?_, h.uriParse_uriStringify⟩
  obtain ⟨R, hR, hu⟩ := uriParse_eq_ok_iff.1 hok
  rw [h.uriStringify_eq] at hR
  have hsep : ¬ schemeSeparator <:+: text u.scheme := fun hs =>
    h.schemeOk.1.colon_not_mem (hs.subset (by decide))
  obtain ⟨-, hrest⟩ := R.scheme_eq hsep hR
  have htail : IsTail (slash :: restOf u) := .inr ⟨_, _, rfl, isDelim_slash⟩
  have hat : u.hasAuthentication = 1 ∨ atSign ∉ slash :: restOf u := by
    by_contra hno
    rw [not_or, not_not] at hno
    have hzero := h.hasAuthentication_eq.resolve_right hno.1
    rw [userinfoOf, if_neg (by simp [hzero]), Reading.userinfoText, List.nil_append] at hrest
    have hone := R.hasAuthentication_of_at_in_tail (h.not_mem_authorityOf (.inl rfl)) htail hno.2
      hrest
    rw [hu] at hone
    omega
  refine ⟨?_, hat.imp_right fun hno => WellFormed.atSign_mem_restOf_iff.1 hno⟩
  have hin : atSign ∈ Reading.userinfoText (userinfoOf u) ++ authorityOf u ∨
      atSign ∉ slash :: restOf u := by
    refine hat.imp_left fun hone => ?_
    simp [userinfoOf, hone, Reading.userinfoText]
  rw [← List.append_assoc (Reading.userinfoText (userinfoOf u))] at hrest
  obtain ⟨-, -, htail'⟩ := R.split h.noDelim_userinfo htail hin hrest
  by_contra hno
  rw [not_or, not_not] at hno
  refine h.readPath_ne hno.2 hno.1 (htail' ▸ R.tail_ok) ?_
  rw [← htail', ← hu]
  rfl

/-- A URI with every component makes the round trip. -/
theorem uriParse_uriStringify_example :
    let u : URI :=
      { scheme := some (str "http"), hasAuthentication := 1, username := some (str "user")
        password := some (str "p:w"), hostname := some (str "example.com"), port := 8080
        path := some (str "a/@b"), query := some (str "c?d/@"), fragment := some (str "e?#/@") }
    uriParse {} (uriStringify u) = .ok u := by
  intro u
  refine (uriParse_uriStringify_iff ?_).2 ⟨.inr (by simp [u]), .inl rfl⟩
  have hl := (@checkLabels_eq_ok_iff (str "example.com") (str "example.com")).1 (by decide)
  exact
    { scheme := ⟨_, _, rfl, by decide, by decide⟩
      authentication := by decide
      username := by simpa [u] using (by decide)
      password := by simpa [u] using (by decide)
      host := ⟨_, rfl, .inl ⟨rfl, by decide, hl.1, by decide, by decide⟩⟩
      port := by decide
      path := by simpa [u] using (by decide)
      query := by simpa [u] using (by decide)
      fragment := by simpa [u] using (by decide) }

/-- A fragment without a query does not make the round trip. -/
theorem not_uriParse_uriStringify_fragment :
    ∃ u, WellFormed u ∧ uriParse {} (uriStringify u) ≠ .ok u := by
  refine ⟨{ scheme := some (str "http"), hostname := some (str "example.com")
            path := some (str "a"), fragment := some (str "b") }, ?_, by decide⟩
  have hl := (@checkLabels_eq_ok_iff (str "example.com") (str "example.com")).1 (by decide)
  exact
    { scheme := ⟨_, _, rfl, by decide, by decide⟩
      authentication := by decide
      username := by simp
      password := by simp
      host := ⟨_, rfl, .inl ⟨rfl, by decide, hl.1, by decide, by decide⟩⟩
      port := by decide
      path := by simpa using (by decide)
      query := by simp
      fragment := by simpa using (by decide) }

end Unalix
