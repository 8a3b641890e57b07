import Unalix.Uri.RoundTrip

/-!
# Which well-formed URLs are accepted

A `Url` is a URL put together from a scheme, a host and any of port, path, query and fragment,
each following its own rules. `uri_parse` accepts its text when the delimiters that occur again
inside query and fragment are not searched for there: `Separable` says when that is, and
`uriParse_url_iff` that the condition is exact.
-/

namespace Unalix

open CString Ascii Outcome

/-- A host by name, or by an address that is written in brackets. -/
inductive Host
  | name (h : Bytes)
  | address (h : Bytes)

namespace Host

def text : Host → Bytes
  | name h => h
  | address h => bracketStart :: (h ++ [bracketEnd])

/-- The rules of the parser for the size and the characters of a host. -/
def Valid : Host → Prop
  | name h => LabelsOk h ∧ minHostnameSize ≤ h.length ∧ h.length ≤ maxHostnameSize
  | address h =>
    isipv6 h = true ∧ minIpv6AddressSize ≤ h.length ∧ h.length ≤ maxIpv6AddressSize

def IsAddress : Host → Prop
  | name _ => False
  | address _ => True

end Host

/-- A well-formed URL without userinfo, by its parts. -/
structure Url where
  scheme : Bytes
  host : Host
  port : Option Bytes
  path : Option Bytes
  query : Option Bytes
  fragment : Option Bytes
  scheme_ok : SchemeOk scheme
  host_ok : host.Valid
  port_ok : ∀ d ∈ port, (∀ c ∈ d, isdigit c = true) ∧ 1 ≤ digitsValue d ∧ digitsValue d ≤ 65535
  path_ok : ∀ p ∈ path, questionMark ∉ p ∧ hashtag ∉ p
  query_ok : ∀ q ∈ query, hashtag ∉ q
  no_at : ∀ s, s = path ∨ s = query ∨ s = fragment → atSign ∉ text s

namespace Url

/-- The host and the port. -/
def authority (U : Url) : Bytes := U.host.text ++ componentOf colon U.port

/-- Path, query and fragment. -/
def tail (U : Url) : Bytes :=
  componentOf slash U.path ++
    (componentOf questionMark U.query ++ componentOf hashtag U.fragment)

/-- The URL as a string. -/
def text (U : Url) : Bytes := joinUri U.scheme U.authority U.tail

/-- The delimiters of the URL are those that the parser finds. -/
structure Separable (U : Url) : Prop where
  question : U.query = none → ∀ f ∈ U.fragment, questionMark ∉ f
  slash : U.path = none → U.query ≠ none →
    slash ∉ Unalix.text U.query ∧ slash ∉ Unalix.text U.fragment
  port : U.path = none → U.query ≠ none → ¬ U.host.IsAddress → U.port = none
  fragment : U.path = none → U.query = none → ∀ f ∈ U.fragment, Unalix.slash ∈ f →
    U.host.IsAddress ∧ U.port = none ∧ PortOk (after colon (before Unalix.slash f))

end Url

/-! ## The authority and the tail -/

theorem mem_componentOf {c d : UInt8} {field : Option Bytes} :
    d ∈ componentOf c field ↔ field ≠ none ∧ d = c ∨ d ∈ text field := by
  cases field <;> simp [componentOf, text]

theorem before_after_componentOf {x : Bytes} (hx : colon ∉ x) (field : Option Bytes) :
    before colon (x ++ componentOf colon field) = x ∧
      after colon (x ++ componentOf colon field) = text field := by
  cases field with
  | none =>
    rw [componentOf, List.append_nil]
    exact ⟨before_of_not_mem hx, after_of_not_mem hx⟩
  | some d => exact ⟨before_cut hx _, after_cut hx _⟩

namespace Url

variable (U : Url)

theorem isTail_tail : IsTail U.tail := by
  unfold tail
  cases U.path with
  | none =>
    cases U.query with
    | none =>
      cases U.fragment with
      | none => exact .inl rfl
      | some f => exact .inr ⟨_, _, rfl, isDelim_hashtag⟩
    | some q => exact .inr ⟨_, _, rfl, isDelim_questionMark⟩
  | some p => exact .inr ⟨_, _, rfl, isDelim_slash⟩

/-- A character that occurs in no host and in no port. -/
theorem not_mem_authority {c : UInt8} (hc : c = atSign ∨ IsDelim c) : c ∉ U.authority := by
  intro hm
  rcases List.mem_append.1 hm with hm | hm
  · have hok := U.host_ok
    rcases hhost : U.host with h | h
    · rw [hhost] at hok hm
      have := hok.1.chars c hm
      rcases hc with rfl | rfl | rfl | rfl <;> exact absurd this (by decide)
    · rw [hhost] at hok hm
      have hno := WellFormed.not_mem_of_isipv6 hok.1 (.inr hc)
      have hb : c ≠ bracketStart ∧ c ≠ bracketEnd := by
        rcases hc with rfl | rfl | rfl | rfl <;> decide
      simp [Host.text, hno, hb] at hm
  · rcases hport : U.port with _ | d
    · simp [hport, componentOf] at hm
    · rw [hport] at hm
      rcases List.mem_cons.1 hm with rfl | hm
      · revert hc
        decide
      · have := (U.port_ok d hport).1 c hm
        rcases hc with rfl | rfl | rfl | rfl <;> exact absurd this (by decide)

theorem atSign_not_mem : atSign ∉ U.authority ++ U.tail := by
  have hauth := U.not_mem_authority (.inl rfl)
  have hpath := U.no_at _ (.inl rfl)
  have hquery := U.no_at _ (.inr (.inl rfl))
  have hfragment := U.no_at _ (.inr (.inr rfl))
  have hs : atSign ≠ Unalix.slash := by decide
  have hq : atSign ≠ questionMark := by decide
  have hh : atSign ≠ hashtag := by decide
  simp [tail, mem_componentOf, hauth, hpath, hquery, hfragment, hs, hq, hh]

theorem portOk_port : PortOk (Unalix.text U.port) := by
  rcases hport : U.port with _ | d
  · exact .inl rfl
  · obtain ⟨hdigits, hmin, hmax⟩ := U.port_ok d hport
    have hone : minPortNumber = 1 := rfl
    have htop : maxPortNumber = 65535 := rfl
    refine .inr ⟨hdigits, ?_⟩
    rw [Unalix.text, Option.getD_some, atoi_of_lt hdigits (by omega)]
    omega

/-- After a path, the tail is in order when a fragment without a query holds no `?`. -/
theorem precedes_iff {p : Bytes} {query fragment : Option Bytes}
    (hp : questionMark ∉ p ∧ hashtag ∉ p) :
    Precedes questionMark hashtag
        (p ++ (componentOf questionMark query ++ componentOf hashtag fragment)) ↔
      (query = none → ∀ f ∈ fragment, questionMark ∉ f) := by
  have hne : questionMark ≠ hashtag := by decide
  unfold Precedes
  rw [before_append_of_not_mem hp.2]
  cases query with
  | none =>
    cases fragment with
    | none => simp [componentOf, hp]
    | some f => simp [componentOf, hp, hne]
  | some q => simp [componentOf, before, hne]

/-- The tail is in order when a fragment without a query holds no `?`, and query and fragment
without a path hold no slash. -/
theorem tailOk_tail_iff : TailOk U.tail ↔
    (U.query = none → ∀ f ∈ U.fragment, questionMark ∉ f) ∧
      (U.path = none → U.query ≠ none →
        slash ∉ Unalix.text U.query ∧ slash ∉ Unalix.text U.fragment) := by
  have hsh : slash ≠ hashtag := by decide
  unfold tail
  rcases hpath : U.path with _ | p
  · rcases hquery : U.query with _ | q
    · rcases hfragment : U.fragment with _ | f
      · exact iff_of_true .nil ⟨by simp, by simp⟩
      · constructor
        · rintro (_ | _ | _ | h)
          exact ⟨by simpa using h, by simp⟩
        · rintro ⟨h, -⟩
          exact .fragment (h rfl f rfl)
    · have hslash : slash ∉ q ++ componentOf hashtag U.fragment ↔
          slash ∉ q ∧ slash ∉ Unalix.text U.fragment := by
        simp [mem_componentOf, hsh]
      constructor
      · rintro (_ | _ | h)
        exact ⟨by simp, fun _ _ => hslash.1 h⟩
      · rintro ⟨-, h⟩
        exact .query (hslash.2 (h rfl (by simp)))
  · have hprec := @precedes_iff p U.query U.fragment (U.path_ok p hpath)
    constructor
    · rintro (_ | h)
      exact ⟨hprec.1 h, by simp⟩
    · rintro ⟨h, -⟩
      exact .path (hprec.2 h)

theorem head?_tail_eq_questionMark_iff :
    U.tail.head? = some questionMark ↔ U.path = none ∧ U.query ≠ none := by
  have hsq : slash ≠ questionMark := by decide
  have hhq : hashtag ≠ questionMark := by decide
  unfold tail
  rcases U.path with _ | p <;> rcases U.query with _ | q <;> rcases U.fragment with _ | f <;>
    simp [componentOf, hsq, hhq]

theorem head?_tail_eq_hashtag_iff :
    U.tail.head? = some hashtag ↔ U.path = none ∧ U.query = none ∧ U.fragment ≠ none := by
  have hsh : slash ≠ hashtag := by decide
  have hqh : questionMark ≠ hashtag := by decide
  unfold tail
  rcases U.path with _ | p <;> rcases U.query with _ | q <;> rcases U.fragment with _ | f <;>
    simp [componentOf, hsh, hqh]

theorem colon_mem_port_iff : colon ∈ componentOf colon U.port ↔ U.port ≠ none := by
  rcases hport : U.port with _ | d
  · simp [componentOf]
  · simp [componentOf]

/-- What must not follow a host by name. -/
theorem hostOk_name_iff {h : Bytes} (hhost : U.host = .name h) :
    HostOk U.authority U.tail ↔
      (U.path = none → U.query ≠ none → U.port = none) ∧
        (U.path = none → U.query = none → ∀ f ∈ U.fragment, slash ∉ f) := by
  have hok := U.host_ok
  rw [hhost] at hok
  obtain ⟨hl, hmin, hmax⟩ := hok
  have hcolon := hl.colon_not_mem
  have hA : U.authority = h ++ componentOf colon U.port := by rw [authority, hhost, Host.text]
  obtain ⟨hb, ha⟩ := before_after_componentOf hcolon U.port
  have hhead := hl.head?_ne_bracketStart hmin (componentOf colon U.port)
  have hmem : colon ∉ h ++ componentOf colon U.port ↔ U.port = none := by
    rw [List.mem_append, colon_mem_port_iff]
    simp [hcolon]
  rw [hA, HostOk, if_neg hhead]
  constructor
  · intro hname
    refine ⟨fun hp hq => ?_, fun hp hq f hf hs => ?_⟩
    · exact hmem.1 (hname.query (U.head?_tail_eq_questionMark_iff.2 ⟨hp, hq⟩))
    · have hne : U.fragment ≠ none := by
        rintro hn
        simp [hn] at hf
      refine hname.fragment (U.head?_tail_eq_hashtag_iff.2 ⟨hp, hq, hne⟩) ?_
      rw [Option.mem_def] at hf
      simp [tail, hf, componentOf, hs]
  · rintro ⟨hport, hfragment⟩
    refine ⟨?_, ?_, ?_, ?_, fun hq => ?_, fun hh hs => ?_⟩
    · rwa [hb]
    · rwa [hb]
    · rwa [hb]
    · rw [ha]
      exact U.portOk_port
    · obtain ⟨hp, hq⟩ := U.head?_tail_eq_questionMark_iff.1 hq
      exact hmem.2 (hport hp hq)
    · obtain ⟨hp, hq, hf⟩ := U.head?_tail_eq_hashtag_iff.1 hh
      obtain ⟨f, hf⟩ := Option.ne_none_iff_exists'.1 hf
      have hsh : slash ≠ hashtag := by decide
      refine hfragment hp hq f hf ?_
      simpa [tail, hp, hq, hf, componentOf, hsh] using hs

/-- The port read after an address is the port of the URL, unless the tail is a fragment with a
slash in it. -/
theorem portOk_portText_iff : PortOk (portText (componentOf colon U.port) U.tail) ↔
    (U.path = none → U.query = none → ∀ f ∈ U.fragment, slash ∈ f →
      U.port = none ∧ PortOk (after colon (before slash f))) := by
  have hsq : slash ≠ questionMark := by decide
  have hhq : hashtag ≠ questionMark := by decide
  have hhs : hashtag ≠ slash := by decide
  have hhc : hashtag ≠ colon := by decide
  have hport : after colon (componentOf colon U.port) = Unalix.text U.port :=
    (@before_after_componentOf [] (by simp) U.port).2
  unfold tail
  cases U.path with
  | none =>
    cases U.query with
    | none =>
      cases U.fragment with
      | none =>
        refine iff_of_true ?_ (by simp)
        rw [portText, portRegion, if_neg (by simp [componentOf]), if_neg (by simp [componentOf]),
          hport]
        exact U.portOk_port
      | some f =>
        have htail : componentOf slash none ++ (componentOf questionMark none ++
            componentOf hashtag (some f)) = hashtag :: f := rfl
        have hhead : (hashtag :: f).head? ≠ some questionMark := by simp [hhq]
        rw [htail, portText, portRegion, if_neg hhead]
        by_cases hs : slash ∈ f
        · have hregion : before slash (hashtag :: f) = hashtag :: before slash f := by
            simp [before, hhs]
          rw [if_pos (List.mem_cons_of_mem _ hs), hregion]
          cases U.port with
          | none =>
            have hafter : after colon (hashtag :: before slash f) =
                after colon (before slash f) := by simp [after, hhc]
            simp [componentOf, hafter, hs]
          | some d =>
            have hmem : colon ∈ componentOf colon (some d) := by simp [componentOf]
            rw [after_append_of_mem hmem]
            constructor
            · intro hok
              exact absurd (hok.isdigit hashtag (by simp)) (by decide)
            · intro h
              exact absurd (h rfl rfl f rfl hs).1 (by simp)
        · rw [if_neg (by simp [hhs.symm, hs]), hport]
          refine iff_of_true U.portOk_port fun _ _ g hg hs' => ?_
          rw [Option.mem_def, Option.some.injEq] at hg
          exact absurd (hg ▸ hs') hs
    | some q =>
      have htext := @portText_query (componentOf colon U.port) (componentOf slash none ++
        (componentOf questionMark (some q) ++ componentOf hashtag U.fragment)) rfl
      rw [htext]
      exact iff_of_true (.inl rfl) (by simp)
  | some p =>
    refine iff_of_true ?_ (by simp)
    rw [portText, portRegion, if_neg (by simp [componentOf, hsq]), if_pos (by simp [componentOf])]
    simp only [componentOf, List.cons_append, before_cons_self, List.append_nil]
    have := U.portOk_port
    rwa [← hport] at this

/-- What must not follow a host by address. -/
theorem hostOk_address_iff {h : Bytes} (hhost : U.host = .address h) :
    HostOk U.authority U.tail ↔
      (U.path = none → U.query = none → ∀ f ∈ U.fragment, slash ∈ f →
        U.port = none ∧ PortOk (after colon (before slash f))) := by
  have hok := U.host_ok
  rw [hhost] at hok
  obtain ⟨hi, hmin, hmax⟩ := hok
  have hno : bracketEnd ∉ h := WellFormed.not_mem_of_isipv6 hi (.inl rfl)
  have hA : U.authority = bracketStart :: (h ++ bracketEnd :: componentOf colon U.port) := by
    simp [authority, hhost, Host.text]
  have hport : HostOk U.authority U.tail ↔ PortOk (portText (componentOf colon U.port) U.tail) := by
    rw [hA, HostOk, List.head?_cons, if_pos rfl, List.tail_cons]
    constructor
    · intro haddress
      have := haddress.port
      rwa [after_cut hno] at this
    · intro hok
      refine ⟨by simp, ?_, ?_, ?_, ?_⟩
      · rwa [before_cut hno]
      · rwa [before_cut hno]
      · rwa [before_cut hno]
      · rwa [after_cut hno]
  exact hport.trans U.portOk_portText_iff

end Url

/-- **Well-formed URLs that are accepted**: those whose delimiters are the ones that the parser
finds. -/
theorem uriParse_url_iff (U : Url) : (∃ u, uriParse {} U.text = .ok u) ↔ U.Separable := by
  have hauth : NoDelim U.authority := fun c hc hd => U.not_mem_authority (.inr hd) hc
  have hok : (∃ u, uriParse {} U.text = .ok u) ↔ TailOk U.tail ∧ HostOk U.authority U.tail := by
    simp only [Url.text, uriParse_joinUri_iff U.scheme_ok hauth U.isTail_tail U.atSign_not_mem,
      exists_and_left, exists_eq, and_true]
  rw [hok, U.tailOk_tail_iff]
  rcases hhost : U.host with h | h
  · rw [U.hostOk_name_iff hhost]
    constructor
    · rintro ⟨⟨hquestion, hslash⟩, hport, hfragment⟩
      exact ⟨hquestion, hslash, fun hp hq _ => hport hp hq,
        fun hp hq f hf hs => absurd hs (hfragment hp hq f hf)⟩
    · rintro ⟨hquestion, hslash, hport, hfragment⟩
      have hname : ¬ U.host.IsAddress := by simp [hhost, Host.IsAddress]
      exact ⟨⟨hquestion, hslash⟩, fun hp hq => hport hp hq hname,
        fun hp hq f hf hs => hname (hfragment hp hq f hf hs).1⟩
  · rw [U.hostOk_address_iff hhost]
    have haddress : U.host.IsAddress := by simp [hhost, Host.IsAddress]
    constructor
    · rintro ⟨⟨hquestion, hslash⟩, hfragment⟩
      exact ⟨hquestion, hslash, fun _ _ hn => absurd haddress hn,
        fun hp hq f hf hs => ⟨haddress, hfragment hp hq f hf hs⟩⟩
    · rintro ⟨hquestion, hslash, -, hfragment⟩
      exact ⟨⟨hquestion, hslash⟩, fun hp hq f hf hs => (hfragment hp hq f hf hs).2⟩

/-- A fragment that looks like a route is refused. -/
theorem not_uriParse_route :
    ∃ U : Url, U.text = str "http://example.com/#/route?x" ∧ ∀ u, uriParse {} U.text ≠ .ok u := by
  have hl := (@checkLabels_eq_ok_iff (str "example.com") (str "example.com")).1 (by decide)
  refine ⟨
    { scheme := str "http", host := .name (str "example.com"), port := none
      path := some [], query := none, fragment := some (str "/route?x")
      scheme_ok := ⟨⟨_, _, rfl, by decide⟩, by decide⟩
      host_ok := ⟨hl.1, by decide, by decide⟩
      port_ok := by simp
      path_ok := by simp
      query_ok := by simp
      no_at := by rintro s (rfl | rfl | rfl) <;> decide }, rfl, fun u hu => ?_⟩
  have hfails : (uriParse {} (str "http://example.com/#/route?x")).toOption = none := by decide
  have hu' : uriParse {} (str "http://example.com/#/route?x") = .ok u := hu
  rw [hu'] at hfails
  exact absurd hfails nofun

end Unalix
