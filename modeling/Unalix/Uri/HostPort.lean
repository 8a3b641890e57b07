import Unalix.Uri.Acceptance

/-!
# Host names and port numbers

Which host names and which port numbers `uri_parse` accepts, when nothing else is wrong.

A host name alone is accepted by the grammar of labels (`uriParse_hostname_iff`). A port is a
number of any length, which `atoi` converts before it is compared with the port range. The
conversion is exact below `2 ^ 31`. Above, the number is taken modulo `2 ^ 32`, up to the end of a
64-bit `long`, so a number with a remainder in the port range is accepted as that port
(`uriParse_port_iff`).
-/

namespace Unalix

open CString Ascii Outcome

/-! ## Host names -/

theorem nameOk_nil_iff {h : Bytes} (hcolon : colon ∉ h) : NameOk h [] ↔
    (minHostnameSize ≤ h.length ∧ h.length ≤ maxHostnameSize) ∧ LabelsOk h := by
  constructor
  · intro hok
    have hmin := hok.size_min
    have hmax := hok.size_max
    have hl := hok.labels
    rw [before_of_not_mem hcolon] at hmin hmax hl
    exact ⟨⟨hmin, hmax⟩, hl⟩
  · rintro ⟨⟨hmin, hmax⟩, hl⟩
    refine ⟨?_, ?_, ?_, .inl (after_of_not_mem hcolon), by simp, by simp⟩
    · rwa [before_of_not_mem hcolon]
    · rwa [before_of_not_mem hcolon]
    · rwa [before_of_not_mem hcolon]

/-- **Host names are accepted by their grammar**, and returned in lower case. -/
theorem uriParse_hostname_iff {h : Bytes}
    (hchars : ∀ c ∈ h, c ≠ colon ∧ c ≠ slash ∧ c ≠ questionMark ∧ c ≠ hashtag ∧ c ≠ atSign)
    (hbracket : h.head? ≠ some bracketStart) :
    ((∃ u, uriParse {} (str "http://" ++ h) = .ok u) ↔
      (minHostnameSize ≤ h.length ∧ h.length ≤ maxHostnameSize) ∧ LabelsOk h) ∧
    ∀ u, uriParse {} (str "http://" ++ h) = .ok u → u.hostname = some (h.map lower) := by
  have hcolon : colon ∉ h := fun hc => (hchars colon hc).1 rfl
  have hdelim : NoDelim h := by
    rintro c hc (rfl | rfl | rfl)
    · exact (hchars _ hc).2.1 rfl
    · exact (hchars _ hc).2.2.1 rfl
    · exact (hchars _ hc).2.2.2.1 rfl
  have hat : atSign ∉ h ++ [] := by
    intro hc
    rw [List.append_nil] at hc
    exact (hchars _ hc).2.2.2.2 rfl
  have hscheme : SchemeOk httpScheme := ⟨⟨_, _, rfl, by decide⟩, by decide⟩
  have hjoin : str "http://" ++ h = joinUri httpScheme h [] := by
    rw [joinUri, List.append_nil]
    rfl
  have hok (u : URI) := @uriParse_joinUri_iff httpScheme h [] u hscheme hdelim (.inl rfl) hat
  have hhost : HostOk h [] ↔ NameOk h [] := by rw [HostOk, if_neg hbracket]
  rw [hjoin]
  constructor
  · simp only [hok, exists_and_left, exists_eq, and_true, hhost, nameOk_nil_iff hcolon]
    exact and_iff_right .nil
  · intro u hu
    obtain ⟨-, rfl⟩ := (hok u).1 hu
    rw [plainUri, readHostname, if_neg hbracket, before_of_not_mem hcolon]

/-- A host name of the test suite, with upper-case letters. -/
theorem uriParse_hostname_example :
    ((∃ u, uriParse {} (str "http://" ++ str "Example.COM") = .ok u) ↔
      (minHostnameSize ≤ (str "Example.COM").length ∧
        (str "Example.COM").length ≤ maxHostnameSize) ∧ LabelsOk (str "Example.COM")) ∧
    ∀ u, uriParse {} (str "http://" ++ str "Example.COM") = .ok u →
      u.hostname = some ((str "Example.COM").map lower) :=
  uriParse_hostname_iff (by decide) (by decide)

/-! ## Port numbers -/

/-- The number written by the digits lies in the port range. -/
def InPortRange (d : Bytes) : Prop :=
  minPortNumber ≤ digitsValue d ∧ (digitsValue d : ℤ) ≤ maxPortNumber

/-- The port of a string is read as the number that the digits `d` write, or refused. -/
def PortExact (s d : Bytes) : Prop :=
  ((∃ u, uriParse {} s = .ok u) ↔ InPortRange d) ∧
    (∀ u, uriParse {} s = .ok u → u.port = digitsValue d) ∧
    (¬ InPortRange d → uriParse {} s = fail .uriPortOutOfRange)

/-- A number that `atoi` carries into the port range from outside. -/
def WrapsIntoRange (n : ℕ) : Prop :=
  65535 < n ∧ n < 2 ^ 63 ∧ 1 ≤ n % 2 ^ 32 ∧ n % 2 ^ 32 ≤ 65535

/-- `scheme://host:d/`. -/
def portUri (scheme : Bytes) (host : Host) (d : Bytes) : Bytes :=
  joinUri scheme (host.text ++ colon :: d) [slash]

/-- What `atoi` makes of a number below the end of a `long`. -/
theorem atoi_of_lt_long {d : Bytes} (hd : ∀ c ∈ d, isdigit c = true)
    (hlt : digitsValue d < 2 ^ 63) : atoi d = (digitsValue d : ℤ).bmod (2 ^ 32) := by
  have hclamp : clampLong (digitsValue d) = digitsValue d := by
    unfold clampLong
    omega
  rw [atoi_of_isdigit hd, hclamp]

/-- A number beyond a `long` becomes its largest value, and that an `int` of `-1`. -/
theorem atoi_of_le_long {d : Bytes} (hd : ∀ c ∈ d, isdigit c = true)
    (hle : 2 ^ 63 ≤ digitsValue d) : atoi d = -1 := by
  have hclamp : clampLong (digitsValue d) = 2 ^ 63 - 1 := by
    unfold clampLong
    omega
  rw [atoi_of_isdigit hd, hclamp]
  rfl

/-- The digits are accepted for a number of the range, and for those that wrap around. -/
theorem portOk_iff_wraps {d : Bytes} (hne : d ≠ []) (hd : ∀ c ∈ d, isdigit c = true) :
    PortOk d ↔ InPortRange d ∨ WrapsIntoRange (digitsValue d) := by
  have hmin : minPortNumber = 1 := rfl
  have hmax : maxPortNumber = 65535 := rfl
  have hvalue : PortOk d ↔ 1 ≤ atoi d ∧ atoi d ≤ 65535 := by
    rw [PortOk, or_iff_right hne, and_iff_right hd, hmin, hmax]
  rw [hvalue, InPortRange, WrapsIntoRange, hmin, hmax]
  by_cases hlong : digitsValue d < 2 ^ 63
  · rw [atoi_of_lt_long hd hlong, Int.bmod_def]
    omega
  · rw [atoi_of_le_long hd (by omega)]
    omega

/-- On a number of the range nothing is lost. -/
theorem atoi_of_inPortRange {d : Bytes} (hd : ∀ c ∈ d, isdigit c = true) (h : InPortRange d) :
    atoi d = digitsValue d := by
  have hmax : maxPortNumber = 65535 := rfl
  have hle := h.2
  exact atoi_of_lt hd (by omega)

/-- The checks on digits fail with one code only. -/
theorem parsePortNumber_of_not_portOk (obj : URI) {d : Bytes}
    (hd : ∀ c ∈ d, isdigit c = true) (h : ¬ PortOk d) :
    parsePortNumber obj d = fail .uriPortOutOfRange := by
  have hnumeric : isnumeric d = true := isnumeric_iff.2 hd
  unfold parsePortNumber
  rw [hnumeric, Bool.not_true, if_neg Bool.false_ne_true]
  split_ifs with hmin hmax
  · rfl
  · rfl
  · exact absurd (.inr ⟨hd, by omega, by omega⟩) h

/-- Digits between a `:` and the path are checked as a port. -/
theorem parsePort_slash (obj : URI) (isIpv6 : Bool) (hostnameEnd : Option Bytes) {d : Bytes}
    (hd : d ≠ []) : parsePort obj isIpv6 hostnameEnd (some (colon :: (d ++ [slash])))
      (some [slash]) none none = (do
        let obj ← parsePortNumber obj d
        return (obj, if isIpv6 then hostnameEnd else some (colon :: (d ++ [slash])))) := by
  have hlt : ptrLt (colon :: (d ++ [slash])) (findPortEnd (some [slash]) none none) = true := by
    simp [ptrLt, findPortEnd]
  have hsize : (d ++ [slash]).length - [slash].length = d.length := by simp
  have hpos : 0 < d.length := List.length_pos_iff.2 hd
  have hend : text (findPortEnd (some [slash]) none none) = [slash] := rfl
  simp only [parsePort, hlt, if_true, List.drop_one, List.tail_cons, hend, hsize,
    List.take_left, hpos]

/-- A port that fails ends the parse before the host is looked at. -/
theorem parseHost_of_port_fails (obj : URI) {host : Host} (hhost : host.Valid) {d : Bytes}
    (hne : d ≠ []) {e : ErrorCode} (hfail : parsePortNumber obj d = fail e) :
    parseHost obj (host.text ++ colon :: (d ++ [slash])) (some [slash]) none none = fail e := by
  cases host with
  | name h =>
    obtain ⟨hl, hmin, -⟩ := hhost
    have hhead := hl.head?_ne_bracketStart hmin (colon :: (d ++ [slash]))
    simp only [Host.text, parseHost, hhead, decide_false, Bool.false_eq_true, if_false, ok_bind,
      strstr_singleton_cut hl.colon_not_mem, parsePort_slash _ _ _ hne, hfail, fail_bind]
  | address h =>
    have hno : bracketEnd ∉ h := WellFormed.not_mem_of_isipv6 hhost.1 (.inl rfl)
    have htext : Host.text (.address h) ++ colon :: (d ++ [slash]) =
        bracketStart :: (h ++ bracketEnd :: colon :: (d ++ [slash])) := by simp [Host.text]
    have hend : strstr (bracketStart :: (h ++ bracketEnd :: colon :: (d ++ [slash])))
        [bracketEnd] = some (bracketEnd :: colon :: (d ++ [slash])) := by
      rw [strstr_singleton]
      simp [show bracketEnd ≠ bracketStart by decide, strstr_singleton_cut hno]
    have hport : strstr (bracketEnd :: colon :: (d ++ [slash])) [colon] =
        some (colon :: (d ++ [slash])) := by
      rw [strstr_singleton]
      simp [show colon ≠ bracketEnd by decide]
    have hfirst : (strstr (bracketStart :: (h ++ bracketEnd :: colon :: (d ++ [slash])))
        [colon]).isSome = true := by
      rw [strstr_singleton_eq, if_pos (by simp)]
      rfl
    rw [htext]
    simp only [parseHost, List.head?_cons, decide_true, if_true, hend, hfirst, hport, ok_bind,
      parsePort_slash _ _ _ hne, hfail, fail_bind]

/-- Neither a host nor digits contain `@` or a delimiter. -/
theorem not_mem_hostPort {host : Host} (hhost : host.Valid) {d : Bytes}
    (hd : ∀ c ∈ d, isdigit c = true) {c : UInt8} (hc : c = atSign ∨ IsDelim c) :
    c ∉ host.text ++ colon :: d := by
  have hcolon : c ≠ colon := by
    rcases hc with rfl | rfl | rfl | rfl <;> decide
  have hdigits : c ∉ d := by
    intro hm
    rcases hc with rfl | rfl | rfl | rfl <;> exact absurd (hd _ hm) (by decide)
  have htext : c ∉ host.text := by
    intro hm
    cases host with
    | name h =>
      have := hhost.1.chars c hm
      rcases hc with rfl | rfl | rfl | rfl <;> exact absurd this (by decide)
    | address h =>
      have hno := WellFormed.not_mem_of_isipv6 hhost.1 (.inr hc)
      have hb : c ≠ bracketStart ∧ c ≠ bracketEnd := by
        rcases hc with rfl | rfl | rfl | rfl <;> decide
      simp [Host.text, hno, hb] at hm
  simp [htext, hcolon, hdigits]

/-- A valid host is accepted before the path exactly with an accepted port. -/
theorem hostOk_port_iff {host : Host} (hhost : host.Valid) (d : Bytes) :
    (HostOk (host.text ++ colon :: d) [slash] ↔ PortOk d) ∧
      readPort (host.text ++ colon :: d) [slash] = d := by
  cases host with
  | name h =>
    obtain ⟨hl, hmin, hmax⟩ := hhost
    have hcolon := hl.colon_not_mem
    have hhead := hl.head?_ne_bracketStart hmin (colon :: d)
    have hport := after_cut hcolon d
    have hname := before_cut hcolon d
    have hquery : [slash].head? ≠ some questionMark := by decide
    have hfragment : [slash].head? ≠ some hashtag := by decide
    rw [Host.text, HostOk, readPort, if_neg hhead, if_neg hhead]
    refine ⟨⟨fun hok => hport ▸ hok.port, fun hok =>
      ⟨?_, ?_, ?_, ?_, fun h => absurd h hquery, fun h => absurd h hfragment⟩⟩, hport⟩
    · rwa [hname]
    · rwa [hname]
    · rwa [hname]
    · rwa [hport]
  | address h =>
    obtain ⟨hi, hmin, hmax⟩ := hhost
    have hno : bracketEnd ∉ h := WellFormed.not_mem_of_isipv6 hi (.inl rfl)
    have htext : Host.text (.address h) ++ colon :: d =
        bracketStart :: (h ++ bracketEnd :: colon :: d) := by simp [Host.text]
    have hname := before_cut hno (colon :: d)
    have hport : portText (after bracketEnd (h ++ bracketEnd :: colon :: d)) [slash] = d := by
      rw [after_cut hno, portText, portRegion, if_neg (by decide), if_pos (by simp),
        before_cons_self, List.append_nil, after_cons_self]
    rw [htext, HostOk, readPort, List.head?_cons, if_pos rfl, if_pos rfl, List.tail_cons]
    refine ⟨⟨fun hok => hport ▸ hok.port, fun hok => ⟨by simp, ?_, ?_, ?_, ?_⟩⟩, hport⟩
    · rwa [hname]
    · rwa [hname]
    · rwa [hname]
    · rwa [hport]

/-- What a string with a port is parsed to. -/
theorem uriParse_portUri_eq_ok_iff {scheme : Bytes} (hscheme : SchemeOk scheme) {host : Host}
    (hhost : host.Valid) {d : Bytes} (hd : ∀ c ∈ d, isdigit c = true) (u : URI) :
    uriParse {} (portUri scheme host d) = .ok u ↔
      PortOk d ∧ u = plainUri scheme (host.text ++ colon :: d) [slash] := by
  have hauth : NoDelim (host.text ++ colon :: d) := fun c hc hdelim =>
    not_mem_hostPort hhost hd (.inr hdelim) hc
  have hat : atSign ∉ host.text ++ colon :: d ++ [slash] := by
    rw [List.mem_append, not_or]
    exact ⟨not_mem_hostPort hhost hd (.inl rfl), by decide⟩
  have htail : TailOk [slash] := .path (by simp [Precedes])
  rw [portUri, uriParse_joinUri_iff hscheme hauth htail.isTail hat, (hostOk_port_iff hhost d).1,
    and_iff_right htail]

/-- What a string with a port that is not accepted returns. -/
theorem uriParse_portUri_of_not_portOk {scheme : Bytes} (hscheme : SchemeOk scheme) {host : Host}
    (hhost : host.Valid) {d : Bytes} (hne : d ≠ []) (hd : ∀ c ∈ d, isdigit c = true)
    (h : ¬ PortOk d) : uriParse {} (portUri scheme host d) = fail .uriPortOutOfRange := by
  have hauth : NoDelim (host.text ++ colon :: d) := fun c hc hdelim =>
    not_mem_hostPort hhost hd (.inr hdelim) hc
  have hassoc : host.text ++ colon :: d ++ [slash] = host.text ++ colon :: (d ++ [slash]) := by
    simp
  have hat : atSign ∉ host.text ++ colon :: d ++ [slash] := by
    rw [List.mem_append, not_or]
    exact ⟨not_mem_hostPort hhost hd (.inl rfl), by decide⟩
  have hslash : strstr [slash] [slash] = some [slash] := rfl
  have hquery : strstr [slash] [questionMark] = none := by decide
  have hfragment : strstr [slash] [hashtag] = none := by decide
  simp only [uriParse, parseUri, portUri, joinUri, parseScheme_cut hscheme, ok_bind,
    parseUserinfo_none hat, hauth.strstr_append isDelim_slash,
    hauth.strstr_append isDelim_questionMark, hauth.strstr_append isDelim_hashtag, hslash,
    hquery, hfragment]
  rw [hassoc, parseHost_of_port_fails _ hhost hne (parsePortNumber_of_not_portOk _ hd h), fail_bind]

/-- **Port numbers are read exactly** if and only if they do not wrap around into the port range. -/
theorem uriParse_port_iff {scheme : Bytes} (hscheme : SchemeOk scheme) {host : Host}
    (hhost : host.Valid) {d : Bytes} (hne : d ≠ []) (hd : ∀ c ∈ d, isdigit c = true) :
    PortExact (portUri scheme host d) d ↔ ¬ WrapsIntoRange (digitsValue d) := by
  have hmax : maxPortNumber = 65535 := rfl
  have hok := uriParse_portUri_eq_ok_iff hscheme hhost hd
  have hport := portOk_iff_wraps hne hd
  constructor
  · rintro ⟨hrange, -, -⟩ hwraps
    have hin : InPortRange d := hrange.1 ⟨_, (hok _).2 ⟨hport.2 (.inr hwraps), rfl⟩⟩
    have hle := hin.2
    have hgt := hwraps.1
    omega
  · intro hwraps
    rw [or_iff_left hwraps] at hport
    refine ⟨?_, ?_, ?_⟩
    · simp only [hok, exists_and_left, exists_eq, and_true, hport]
    · intro u hu
      obtain ⟨hd', rfl⟩ := (hok u).1 hu
      rw [plainUri, (hostOk_port_iff hhost d).2]
      exact atoi_of_inPortRange hd (hport.1 hd')
    · intro hout
      exact uriParse_portUri_of_not_portOk hscheme hhost hne hd fun h => hout (hport.1 h)

/-- The parts of `http://example.com:8080/`. -/
theorem uriParse_port_example :
    PortExact (portUri httpScheme (.name (str "example.com")) (str "8080")) (str "8080") ↔
      ¬ WrapsIntoRange (digitsValue (str "8080")) := by
  have hl := (@checkLabels_eq_ok_iff (str "example.com") (str "example.com")).1 (by decide)
  have hhost : (Host.name (str "example.com")).Valid := ⟨hl.1, by decide, by decide⟩
  exact uriParse_port_iff ⟨⟨_, _, rfl, by decide⟩, by decide⟩ hhost (by decide) (by decide)

/-- A number of ten digits is accepted as port 80. -/
theorem not_portExact_wrapped :
    portUri httpScheme (.name (str "example.com")) (str "4294967376") =
        str "http://example.com:4294967376/" ∧
      (uriParse {} (str "http://example.com:4294967376/")).toOption.map URI.port = some 80 ∧
      ¬ PortExact (str "http://example.com:4294967376/") (str "4294967376") := by
  have hport : (uriParse {} (str "http://example.com:4294967376/")).toOption.map URI.port =
      some 80 := by decide
  refine ⟨by decide, hport, fun h => ?_⟩
  have hout : ¬ InPortRange (str "4294967376") := by
    unfold InPortRange
    decide
  rw [h.2.2 hout] at hport
  simp [fail, Except.toOption] at hport

end Unalix
