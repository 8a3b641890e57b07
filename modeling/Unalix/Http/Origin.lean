import Unalix.Uri.Acceptance
import Unalix.Http.Redirect

/-!
# The origin of a redirection to a path

A `Location` that is a path should be followed on the same origin. `http_get_redirect` puts the
text of the `Host` header before the path, and `uri_parse` reads the two again. It reads the same
origin exactly for the paths of `KeepsOrigin`: the header has no brackets around an address and no
port for schemes other than the two, and an `@` in the path makes the host a part of a userinfo.
-/

namespace Unalix

open CString Ascii Outcome

/-- The port of a URI, or the default port of its scheme. -/
def effectivePort (uri : URI) : ℤ :=
  if uri.port ≠ 0 then uri.port
  else if uri.scheme = some httpsScheme then httpsPort
  else if uri.scheme = some httpScheme then httpPort
  else 0

/-- Two URIs with the same scheme, host and port. -/
structure SameOrigin (u v : URI) : Prop where
  scheme : u.scheme = v.scheme
  hostname : u.hostname = v.hostname
  isIpv6 : u.isIpv6 = v.isIpv6
  port : effectivePort u = effectivePort v

/-- A reference to a path: a single slash at the beginning, or neither a slash nor `http`. -/
def IsPathReference (location : Bytes) : Prop :=
  (location.head? = some slash ∧ (location.drop 1).head? ≠ some slash) ∨
    (location.head? ≠ some slash ∧ ¬ httpScheme <+: location)

/-- The path that such a reference is followed to. -/
def followedPath (request : HTTPRequest) (location : Bytes) : Bytes :=
  httpnormpath (if location.head? = some slash then location else redirectBase request ++ location)

/-- A text that begins with the host and port of `u`. -/
def RestatesOrigin (u : URI) (rest : Bytes) : Prop :=
  ∃ a t, rest = a ++ t ∧ NoDelim a ∧ TailOk t ∧ HostOk a t ∧ u.hostname = some (readHostname a) ∧
    u.isIpv6 = readIsIpv6 a ∧
    effectivePort u = effectivePort { scheme := u.scheme, port := atoi (readPort a t) }

/-- Scheme and port for which the `Host` header says which port is meant. -/
def PortNamed (u : URI) : Prop :=
  u.port = 0 ∨ u.scheme = some httpScheme ∨ u.scheme = some httpsScheme

/-- The paths that are followed on the origin of `u`. -/
def KeepsOrigin (u : URI) (path : Bytes) : Prop :=
  if atSign ∈ path then RestatesOrigin u (after atSign path)
  else u.isIpv6 = 0 ∧ PortNamed u ∧ Precedes questionMark hashtag path

/-! ## Reading a `Host` header -/

/-- The port that the header names. -/
def hostPort (u : URI) : ℤ :=
  if 0 < u.port ∧ (u.scheme = some httpScheme ∧ u.port ≠ httpPort ∨
    u.scheme = some httpsScheme ∧ u.port ≠ httpsPort) then u.port else 0

theorem hostValue_eq (u : URI) : hostValue u =
    text u.hostname ++ componentOf colon (if 0 < hostPort u then some (decimal (hostPort u).toNat)
      else none) := by
  unfold hostValue hostPort
  split_ifs with h hpos hpos
  · simp [componentOf]
  · exact absurd h.1 hpos
  · simp at hpos
  · simp [componentOf]

theorem port_range (R : Reading) : 0 ≤ R.uri.port ∧ R.uri.port ≤ maxPortNumber := by
  have hone : minPortNumber = 1 := rfl
  have htop : maxPortNumber = 65535 := rfl
  change 0 ≤ atoi (readPort R.authority R.tail) ∧ atoi (readPort R.authority R.tail) ≤ _
  rcases R.host_ok.port with h | ⟨-, hmin, hmax⟩
  · rw [h, htop]
    decide
  · omega

theorem port_hostPort (R : Reading) : PortOk (text (if 0 < hostPort R.uri then
    some (decimal (hostPort R.uri).toNat) else none)) ∧
    atoi (text (if 0 < hostPort R.uri then some (decimal (hostPort R.uri).toNat) else none)) =
      hostPort R.uri := by
  have hone : minPortNumber = 1 := rfl
  have htop : maxPortNumber = 65535 := rfl
  obtain ⟨hmin, hmax⟩ := port_range R
  have hrange : 0 ≤ hostPort R.uri ∧ hostPort R.uri ≤ maxPortNumber := by
    unfold hostPort
    split_ifs <;> omega
  split_ifs with h
  · exact portOk_decimal (by omega) hrange.2
  · have hzero : hostPort R.uri = 0 := by omega
    rw [hzero]
    exact ⟨.inl rfl, rfl⟩

/-- Reading the named port back gives the port that was meant, for schemes with a default port. -/
theorem effectivePort_hostPort_iff {u : URI} (hport : 0 ≤ u.port) :
    effectivePort u = effectivePort { scheme := u.scheme, port := hostPort u } ↔ PortNamed u := by
  have hne : some httpScheme ≠ some httpsScheme := by decide
  unfold hostPort
  split_ifs with h
  · refine iff_of_true rfl ?_
    rcases h.2 with h | h
    · exact .inr (.inl h.1)
    · exact .inr (.inr h.1)
  · by_cases hzero : u.port = 0
    · refine iff_of_true ?_ (.inl hzero)
      simp [effectivePort, hzero]
    · have hpos : 0 < u.port := by omega
      simp only [not_and, not_or, ne_eq, not_not] at h
      obtain ⟨hhttp, hhttps⟩ := h hpos
      unfold effectivePort PortNamed
      by_cases hs : u.scheme = some httpsScheme
      · simp [hs, hhttps hs, httpsPort]
      · by_cases hp : u.scheme = some httpScheme
        · simp [hp, hhttp hp, httpPort, hne]
        · simp [hs, hp, hzero]

theorem head?_hostValue (R : Reading) : (hostValue R.uri).head? ≠ some bracketStart := by
  intro h
  obtain ⟨x, hx⟩ := List.head?_eq_some_iff.1 h
  have := isHostChar_of_mem_hostValue R bracketStart (hx ▸ List.mem_cons_self)
  exact absurd this (by unfold IsHostChar; decide)

/-- **A host by name is read back**, before any path. -/
theorem hostOk_hostValue {R : Reading} (hb : R.authority.head? ≠ some bracketStart) (x : Bytes) :
    HostOk (hostValue R.uri) (slash :: x) ∧
      readHostname (hostValue R.uri) = text R.uri.hostname ∧
      readIsIpv6 (hostValue R.uri) = 0 ∧
      atoi (readPort (hostValue R.uri) (slash :: x)) = hostPort R.uri := by
  have hsq : slash ≠ questionMark := by decide
  have hsh : slash ≠ hashtag := by decide
  have hhead := head?_hostValue R
  obtain ⟨hpok, hport⟩ := port_hostPort R
  have hok := R.host_ok
  rw [HostOk, if_neg hb] at hok
  have hname : text R.uri.hostname = (before colon R.authority).map lower := by
    simp [Reading.uri, readHostname, hb, text]
  have hlabels := hok.labels.map_lower
  rw [← hname] at hlabels
  have hsize : (text R.uri.hostname).length = (before colon R.authority).length := by
    rw [hname, List.length_map]
  have hlow : (text R.uri.hostname).map lower = text R.uri.hostname := by
    rw [hname, List.map_map]
    exact List.map_congr_left fun c _ => lower_lower c
  have hcut : before colon (hostValue R.uri) = text R.uri.hostname ∧
      after colon (hostValue R.uri) = text (if 0 < hostPort R.uri then
        some (decimal (hostPort R.uri).toNat) else none) := by
    rw [hostValue_eq]
    exact before_after_componentOf hlabels.colon_not_mem _
  unfold HostOk readHostname readIsIpv6 readPort
  rw [if_neg hhead, if_neg hhead, if_neg hhead, if_neg hhead, hcut.1, hcut.2, hlow]
  refine ⟨⟨?_, ?_, ?_, ?_, ?_, ?_⟩, rfl, rfl, hport⟩
  · rw [hcut.1, hsize]
    exact hok.size_min
  · rw [hcut.1, hsize]
    exact hok.size_max
  · rwa [hcut.1]
  · rwa [hcut.2]
  · intro hq
    simp [hsq] at hq
  · intro hq
    simp [hsh] at hq

/-- An address without its brackets is no host: it would be cut at the first of its colons. -/
theorem not_hostOk_hostValue {R : Reading} (hb : R.authority.head? = some bracketStart)
    (t : Bytes) : ¬ HostOk (hostValue R.uri) t := by
  intro h
  rw [HostOk, if_neg (head?_hostValue R)] at h
  have hok := R.host_ok
  rw [HostOk, if_pos hb] at hok
  have hcount : 2 ≤ (text R.uri.hostname).count colon := by
    have hname : text R.uri.hostname = before bracketEnd R.authority.tail := by
      simp [Reading.uri, readHostname, hb, text]
    rw [hname]
    exact two_le_count_colon_of_isipv6 hok.address
  have hmem : colon ∈ text R.uri.hostname := List.count_pos_iff.1 (by omega)
  have hafter : colon ∈ after colon (text R.uri.hostname) := by
    have hcut := before_append_cut hmem
    rw [← hcut, List.count_append, List.count_cons_self,
      List.count_eq_zero_of_not_mem (CString.not_mem_before _ _)] at hcount
    exact List.count_pos_iff.1 (by omega)
  have hport := h.port
  rw [hostValue_eq, after_append_of_mem hmem] at hport
  exact absurd (hport.isdigit colon (List.mem_append_left _ hafter)) (by decide)

/-! ## Reading a redirection -/

theorem map_lower_scheme (R : Reading) : some ((R.scheme.map lower).map lower) = R.uri.scheme := by
  rw [List.map_map]
  exact congrArg some (List.map_congr_left fun c _ => lower_lower c)

/-- A URI that was read has the origin when host and port are the same, whatever the userinfo. -/
theorem sameOrigin_plainUri_iff {R : Reading} {a t : Bytes} (authentication : ℤ)
    (username password : Option Bytes) :
    SameOrigin R.uri { plainUri (R.scheme.map lower) a t with
        hasAuthentication := authentication, username := username, password := password } ↔
      R.uri.hostname = some (readHostname a) ∧ R.uri.isIpv6 = readIsIpv6 a ∧
        effectivePort R.uri =
          effectivePort { scheme := R.uri.scheme, port := atoi (readPort a t) } := by
  rw [← map_lower_scheme R]
  constructor
  · intro h
    exact ⟨h.hostname, h.isIpv6, h.port⟩
  · rintro ⟨hhost, hipv6, hport⟩
    exact ⟨(map_lower_scheme R).symm, hhost, hipv6, hport⟩

theorem atSign_not_mem_hostValue (R : Reading) : atSign ∉ hostValue R.uri := fun hc =>
  absurd (isHostChar_of_mem_hostValue R atSign hc) (by unfold IsHostChar; decide)

theorem tailOk_slash_iff {x : Bytes} :
    TailOk (slash :: x) ↔ Precedes questionMark hashtag (slash :: x) := by
  have hslash : Precedes slash questionMark (slash :: x) := fun _ _ => by
    simp [before, show slash ≠ questionMark by decide]
  rw [tailOk_iff (.inr ⟨slash, x, rfl, isDelim_slash⟩), and_iff_left hslash]

/-- **The header and a path are read again**, without an `@` in the path. -/
theorem uriParse_followed_plain {R : Reading} {x : Bytes} (hat : atSign ∉ slash :: x) :
    (∃ v, uriParse {} (joinUri (R.scheme.map lower) (hostValue R.uri) (slash :: x)) = .ok v ∧
        SameOrigin R.uri v) ↔
      R.uri.isIpv6 = 0 ∧ PortNamed R.uri ∧ Precedes questionMark hashtag (slash :: x) := by
  have hauth : NoDelim (hostValue R.uri) := (normalComponent_hostValue R).noDelim
  have hno : atSign ∉ hostValue R.uri ++ slash :: x := fun hm =>
    (List.mem_append.1 hm).elim (atSign_not_mem_hostValue R) hat
  simp only [uriParse_joinUri_iff R.scheme_ok.map_lower hauth
    (.inr ⟨slash, x, rfl, isDelim_slash⟩) hno, tailOk_slash_iff]
  by_cases hb : R.authority.head? = some bracketStart
  · have hipv6 : R.uri.isIpv6 ≠ 0 := readIsIpv6_ne_zero_iff.2 hb
    refine iff_of_false ?_ fun h => hipv6 h.1
    rintro ⟨_, ⟨⟨-, hhost⟩, -⟩, -⟩
    exact not_hostOk_hostValue hb _ hhost
  · obtain ⟨hhost, hname, hipv6, hport⟩ := hostOk_hostValue hb x
    have hzero : R.uri.isIpv6 = 0 := by
      by_contra h
      exact hb (readIsIpv6_ne_zero_iff.1 h)
    have hsame : SameOrigin R.uri (plainUri (R.scheme.map lower) (hostValue R.uri) (slash :: x)) ↔
        PortNamed R.uri := by
      refine (sameOrigin_plainUri_iff 0 none none).trans ?_
      rw [hname, hipv6, hport, effectivePort_hostPort_iff (port_range R).1]
      exact ⟨fun h => h.2.2, fun h => ⟨rfl, hzero, h⟩⟩
    constructor
    · rintro ⟨v, ⟨⟨hprec, -⟩, rfl⟩, hv⟩
      exact ⟨hzero, hsame.1 hv, hprec⟩
    · rintro ⟨-, hnamed, hprec⟩
      exact ⟨_, ⟨⟨hprec, hhost⟩, rfl⟩, hsame.2 hnamed⟩

/-- With an `@` in the path, the host is what follows it. -/
theorem uriParse_followed_at {R : Reading} {path : Bytes} (hat : atSign ∈ path) :
    (∃ v, uriParse {} (joinUri (R.scheme.map lower) (hostValue R.uri) path) = .ok v ∧
        SameOrigin R.uri v) ↔ RestatesOrigin R.uri (after atSign path) := by
  have hinfo : atSign ∉ hostValue R.uri ++ before atSign path := fun hm =>
    (List.mem_append.1 hm).elim (atSign_not_mem_hostValue R) (CString.not_mem_before _ _)
  have hjoin : joinUri (R.scheme.map lower) (hostValue R.uri) path =
      joinUri (R.scheme.map lower) (hostValue R.uri ++ before atSign path)
        (atSign :: after atSign path) := by
    rw [joinUri, joinUri, List.append_assoc, before_append_cut hat]
  rw [hjoin]
  simp only [uriParse_joinUri_at_iff R.scheme_ok.map_lower hinfo]
  constructor
  · rintro ⟨_, ⟨a, t, hcut, ha, ht, hhost, rfl⟩, hsame⟩
    exact ⟨a, t, hcut, ha, ht, hhost, (sameOrigin_plainUri_iff _ _ _).1 hsame⟩
  · rintro ⟨a, t, hcut, ha, ht, hhost, hsame⟩
    exact ⟨_, ⟨a, t, hcut, ha, ht, hhost, rfl⟩, (sameOrigin_plainUri_iff _ _ _).2 hsame⟩

theorem uriParse_followed_iff (R : Reading) (x : Bytes) :
    (∃ v, uriParse {} (joinUri (text R.uri.scheme) (hostValue R.uri) (slash :: x)) = .ok v ∧
        SameOrigin R.uri v) ↔ KeepsOrigin R.uri (slash :: x) := by
  unfold KeepsOrigin
  split_ifs with hat
  · exact uriParse_followed_at hat
  · exact uriParse_followed_plain hat

/-! ## Following a path -/

theorem exists_httpnormpath_cons (path : Bytes) : ∃ x, httpnormpath path = slash :: x := by
  obtain ⟨comps, s, heq, -⟩ := exists_httpnormpath_eq path
  rw [heq, pathText]
  cases comps with
  | nil => exact ⟨s, rfl⟩
  | cons comp comps => exact ⟨comp ++ joinComponents comps ++ s, by simp [joinComponents]⟩

theorem IsPathReference.not_http {location : Bytes} (h : IsPathReference location) :
    ¬ (httpScheme <+: location ∨ httpsScheme <+: location) := by
  have hhttp : ¬ httpScheme <+: location := fun hp =>
    h.elim (fun h => head?_of_httpScheme hp h.1) fun h => h.2 hp
  exact fun hp => hp.elim hhttp fun hs => hhttp (isPrefix_httpScheme_of_https hs)

theorem IsPathReference.not_slashes {location : Bytes} (h : IsPathReference location)
    (hslash : location.head? = some slash) :
    ¬ (str "///" <+: location ∨ str "//" <+: location) := by
  have hsecond : (location.drop 1).head? ≠ some slash :=
    h.elim (fun h => h.2) fun h => absurd hslash h.1
  have htwo : ¬ str "//" <+: location := by
    rintro ⟨rest, rfl⟩
    exact hsecond rfl
  exact fun hp => hp.elim (fun hthree => htwo (List.IsPrefix.trans (by decide) hthree)) htwo

/-- A path reference that is followed is put after the scheme and the `Host` header. -/
theorem eq_of_httpGetRedirect {request : HTTPRequest} {host key location r : Bytes}
    {response : HTTPResponse} {connection : Connection} (hhost : HasHost request host)
    (hlocation : httpHeadersGet response.headers httpHeaderLocation = some ⟨key, location⟩)
    (hpath : IsPathReference location)
    (hr : httpGetRedirect ⟨request, response, connection⟩ = .ok (some r)) :
    r = joinUri (text request.uri.scheme) host (followedPath request location) := by
  have hhttp := hpath.not_http
  have hjoin (p : Bytes) : text request.uri.scheme ++ schemeSeparator ++ host ++ p =
      joinUri (text request.uri.scheme) host p := by
    simp only [joinUri, List.append_assoc]
  simp only [httpGetRedirect, hlocation, if_neg hhttp, joinRedirect_eq hhost, hjoin] at hr
  unfold followedPath
  by_cases hstatus : isRedirectStatus response.status.code = true
  · simp only [hstatus, Bool.not_true, Bool.false_eq_true, if_false] at hr
    by_cases hslash : location.head? = some slash
    · simp only [hslash, true_and, ne_eq, not_true_eq_false, if_false, hpath.not_slashes hslash,
        if_true] at hr ⊢
      split_ifs at hr
      · exact (ok_some_inj.1 hr).symm
      · exact absurd hr (fail_ne_ok _ _)
    · simp only [hslash, false_and, ne_eq, not_false_eq_true, if_false, if_true] at hr ⊢
      exact (ok_some_inj.1 hr).symm
  · simp [hstatus] at hr

/-- **Paths that are followed on the same origin**: the URL that is followed is accepted and has
the origin of the request if and only if the header names it and the path hides no host. -/
theorem redirect_origin_iff {version : HTTPVersion} {method : HTTPMethod}
    {before after : List HTTPHeader} {url key location r : Bytes} {request : HTTPRequest}
    {response : HTTPResponse} {connection : Connection}
    (hbefore : ∀ header ∈ before, header.key ≠ hostKey)
    (hset : httpRequestSetUrl
      (addRequestHeaders { version := version, method := method } before) url = .ok request)
    (hlocation : httpHeadersGet response.headers httpHeaderLocation = some ⟨key, location⟩)
    (hpath : IsPathReference location)
    (hr : httpGetRedirect ⟨addRequestHeaders request after, response, connection⟩ =
      .ok (some r)) :
    (∃ v, uriParse {} r = .ok v ∧ SameOrigin request.uri v) ↔
      KeepsOrigin request.uri (followedPath request location) := by
  have hhost := hasHost_of_setUrl after rfl rfl hbefore hset
  obtain ⟨R, -, huri, -, -⟩ := exists_reading_of_setUrl (by simp) hset
  have hfollowed : followedPath (addRequestHeaders request after) location =
      followedPath request location := by
    simp only [followedPath, redirectBase, uri_addRequestHeaders]
  have heq := eq_of_httpGetRedirect hhost hlocation hpath hr
  obtain ⟨x, hx⟩ : ∃ x, followedPath request location = slash :: x := exists_httpnormpath_cons _
  rw [heq, hfollowed, hx, uri_addRequestHeaders, huri]
  exact uriParse_followed_iff R x

/-- An absolute path on a host by name. -/
theorem redirect_origin_login :
    let request := (httpRequestSetUrl {} (str "http://example.com/a/b")).toOption.getD {}
    (∃ v, uriParse {} (str "http://example.com/login") = .ok v ∧ SameOrigin request.uri v) ↔
      KeepsOrigin request.uri (followedPath request (str "/login")) := by
  intro request
  have hset : httpRequestSetUrl (addRequestHeaders {} []) (str "http://example.com/a/b") =
      .ok request := by rfl
  have hr : httpGetRedirect ⟨addRequestHeaders request [], redirectExample (str "/login"), {}⟩ =
      .ok (some (str "http://example.com/login")) := by rfl
  exact redirect_origin_iff (by decide) hset (by rfl) (.inl ⟨by decide, by decide⟩) hr

/-- An address loses its brackets, and an `@` in the path names another host. -/
theorem not_redirect_origin : IsPathReference (str "/login") ∧ IsPathReference (str "/@evil.com") ∧
    (∃ request r, httpRequestSetUrl {} (str "http://[::1]/a") = .ok request ∧
      httpGetRedirect ⟨request, redirectExample (str "/login"), {}⟩ = .ok (some r) ∧
      ∀ v, uriParse {} r ≠ .ok v) ∧
    ∃ request r v, httpRequestSetUrl {} (str "http://example.com/") = .ok request ∧
      httpGetRedirect ⟨request, redirectExample (str "/@evil.com"), {}⟩ = .ok (some r) ∧
      uriParse {} r = .ok v ∧ v.hostname = some (str "evil.com") := by
  refine ⟨.inl ⟨by decide, by decide⟩, .inl ⟨by decide, by decide⟩, ⟨_, _, rfl, rfl, ?_⟩,
    _, _, _, rfl, rfl, rfl, rfl⟩
  intro v hv
  have hfails : (uriParse {} (str "http://::1/login")).toOption = none := by decide
  have hv' : uriParse {} (str "http://::1/login") = .ok v := hv
  rw [hv'] at hfails
  exact absurd hfails nofun

end Unalix
