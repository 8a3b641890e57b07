import Unalix.Http.NormPath
import Unalix.Http.Exchange

/-!
# Redirections (`http.c`)

`http_get_redirect` decides by the first three bytes of the `Location` value which kind of
reference it is. `redirectReference` is what RFC 3986 asks for: an absolute URL, a network-path
reference, an absolute path or a relative one. The two agree exactly on the values of
`WellClassified` (`httpGetRedirect_iff`): a value that only begins with the letters `http`, one
that begins with two slashes, the slash alone and a path whose first segment has one character go
the wrong way.
-/

namespace Unalix

open CString Ascii Outcome

def httpHeaderLocation : Bytes := str "Location"

/-- The status codes that `http_get_redirect` follows. -/
def isRedirectStatus (statusCode : ℤ) : Bool :=
  statusCode = 301 || statusCode = 302 || statusCode = 303 || statusCode = 307 || statusCode = 308

/-- Scheme, host and a normalised path. -/
def joinRedirect (request : HTTPRequest) (normalizedPath : Bytes) : Outcome (Option Bytes) := do
  let header ← match httpHeadersGet request.headers hostKey with
    | none => .error (.fault .nullPointer)
    | some header => .ok header
  let scheme ← deref request.uri.scheme
  return some (scheme ++ schemeSeparator ++ header.value ++ normalizedPath)

/-- The path that a relative reference is appended to. -/
def redirectBase (request : HTTPRequest) : Bytes :=
  [slash] ++ match request.uri.path with
    | none => []
    | some path => path ++ [slash]

/-- `http_get_redirect`: the URL to follow, if the response is a redirection. -/
def httpGetRedirect (context : HTTPContext) : Outcome (Option Bytes) :=
  match httpHeadersGet context.response.headers httpHeaderLocation with
  | none => .ok none
  | some locationHeader =>
    let location := locationHeader.value
    if !isRedirectStatus context.response.status.code then .ok none
    else if httpScheme <+: location ∨ httpsScheme <+: location then .ok (some location)
    else if location.head? = some slash ∧ 1 < location.length ∧
        (location.drop 2).head? ≠ some slash then
      -- absolute path
      joinRedirect context.request (httpnormpath location)
    else if location.head? ≠ some slash then
      -- relative path
      joinRedirect context.request (httpnormpath (redirectBase context.request ++ location))
    else if str "///" <+: location ∨ str "//" <+: location then do
      let start := location.drop (countp location slash)
      let scheme ← deref context.request.uri.scheme
      return some (scheme ++ schemeSeparator ++ start)
    else fail .httpHeadersInvalidLocation

/-! ## References -/

/-- The URL that a `Location` value refers to, for a request with this `Host`. -/
def redirectReference (request : HTTPRequest) (host location : Bytes) : Bytes :=
  let scheme := text request.uri.scheme
  if str "http://" <+: location ∨ str "https://" <+: location then location
  else if str "//" <+: location then scheme ++ [colon] ++ location
  else if [slash] <+: location then scheme ++ schemeSeparator ++ host ++ httpnormpath location
  else scheme ++ schemeSeparator ++ host ++ httpnormpath (redirectBase request ++ location)

/-- The values whose first bytes are read as what they are. -/
def WellClassified (location : Bytes) : Prop :=
  (str "http://" <+: location ∨ str "https://" <+: location) ∨
    (∃ c rest, location = slash :: c :: rest ∧ c ≠ slash ∧ rest.head? ≠ some slash) ∨
    (location.head? ≠ some slash ∧ ¬ httpScheme <+: location)

/-! ## The host of a request -/

theorem length_hostname (R : Reading) : 2 ≤ (text R.uri.hostname).length ∧
    text R.uri.hostname ≠ [dot, dot] := by
  have hok := R.host_ok
  simp only [Reading.uri, text, Option.getD_some, readHostname]
  unfold HostOk at hok
  split_ifs at hok ⊢ with hb
  · have hmin := hok.size_min
    have : minIpv6AddressSize = 2 := rfl
    refine ⟨by omega, fun h => ?_⟩
    have haddress := hok.address
    rw [h] at haddress
    exact absurd haddress (by decide)
  · have hmin := hok.size_min
    have : minHostnameSize = 4 := rfl
    rw [List.length_map]
    refine ⟨by omega, fun h => ?_⟩
    have hlen := congrArg List.length h
    rw [List.length_map] at hlen
    simp at hlen
    omega

/-- A `Host` header is one component of a path. -/
theorem normalComponent_hostValue (R : Reading) : NormalComponent (hostValue R.uri) := by
  obtain ⟨hlen, hne⟩ := length_hostname R
  have hle : (text R.uri.hostname).length ≤ (hostValue R.uri).length := by
    unfold hostValue
    split_ifs
    · simp
    · exact le_rfl
  refine ⟨?_, fun c hc hd => ?_, ?_⟩
  · intro h
    rw [h, List.length_nil] at hle
    omega
  · have := isHostChar_of_mem_hostValue R c hc
    rcases hd with rfl | rfl | rfl <;> exact absurd this (by unfold IsHostChar; decide)
  · by_contra hd
    rw [Bool.not_eq_false, isDotted_iff] at hd
    have hshort : (hostValue R.uri).length ≤ 2 := by
      rcases hd with hd | hd <;> rw [hd] <;> decide
    unfold hostValue at hd hshort
    split_ifs at hd hshort
    · simp only [List.length_append, List.length_cons] at hshort
      omega
    · rcases hd with hd | hd
      · rw [hd] at hlen
        simp at hlen
      · exact hne hd

/-- A request whose URL is set: it has a scheme, and its first `Host` header is the text of a
host. -/
structure HasHost (request : HTTPRequest) (host : Bytes) : Prop where
  scheme : ∃ scheme, request.uri.scheme = some scheme
  header : httpHeadersGet request.headers hostKey = some ⟨hostKey, host⟩
  normal : NormalComponent host

/-- `http_request_set_url` names the host, whatever headers stand before and after. -/
theorem hasHost_of_setUrl {request request' : HTTPRequest} {before : List HTTPHeader}
    {url : Bytes} (after : List HTTPHeader) (hzero : request.uri = {}) (hitems : request.headers.items = [])
    (hbefore : ∀ header ∈ before, header.key ≠ hostKey)
    (hset : httpRequestSetUrl (addRequestHeaders request before) url = .ok request') :
    HasHost (addRequestHeaders request' after) (hostValue request'.uri) := by
  obtain ⟨R, -, huri, -, hadded⟩ := exists_reading_of_setUrl (by simp [hzero]) hset
  refine ⟨?_, ?_, ?_⟩
  · rw [uri_addRequestHeaders, huri]
    exact ⟨_, rfl⟩
  · have hnone : before.find? (fun header => header.key = hostKey) = none := by
      simpa using hbefore
    rw [httpHeadersGet, items_addRequestHeaders, hadded, items_addRequestHeaders, hitems, huri,
      List.nil_append, List.append_assoc, List.find?_append, hnone]
    simp
  · rw [huri]
    exact normalComponent_hostValue R

theorem joinRedirect_eq {request : HTTPRequest} {host : Bytes} (h : HasHost request host)
    (normalizedPath : Bytes) : joinRedirect request normalizedPath =
      .ok (some (text request.uri.scheme ++ schemeSeparator ++ host ++ normalizedPath)) := by
  obtain ⟨scheme, hscheme⟩ := h.scheme
  simp [joinRedirect, h.header, hscheme, deref, text]

/-- **`http_get_redirect` returns** for a request that has a scheme and a `Host` header. -/
theorem returns_httpGetRedirect {context : HTTPContext} {host : Bytes}
    (h : HasHost context.request host) : Returns (httpGetRedirect context) := by
  obtain ⟨scheme, hscheme⟩ := h.scheme
  unfold httpGetRedirect
  cases httpHeadersGet context.response.headers httpHeaderLocation with
  | none => exact returns_ok _
  | some header =>
    simp only [joinRedirect_eq h, hscheme, deref, ok_bind]
    split_ifs <;> simp

/-- A header behind the others does not hide the host. -/
theorem HasHost.stringify {request : HTTPRequest} {host : Bytes} (h : HasHost request host) :
    HasHost (httpRequestStringify request).1 host := by
  refine ⟨?_, ?_, h.normal⟩
  · rw [uri_httpRequestStringify]
    exact h.scheme
  · have hheader := h.header
    simp only [httpRequestStringify, addContentLength]
    split_ifs
    · rw [httpHeadersGet] at hheader ⊢
      rw [httpRequestAddHeader, httpHeadersAdd, List.find?_append, hheader]
      rfl
    · exact hheader

/-! ## Two ways to read a location -/

theorem schemeSeparator_eq : schemeSeparator = [colon] ++ [slash, slash] := by decide

section Location

variable {request : HTTPRequest} {host location : Bytes}

theorem isPrefix_httpScheme_of_https (h : httpsScheme <+: location) : httpScheme <+: location :=
  List.IsPrefix.trans (by decide) h

theorem isPrefix_httpScheme_of_absolute
    (h : str "http://" <+: location ∨ str "https://" <+: location) : httpScheme <+: location := by
  rcases h with h | h
  · exact List.IsPrefix.trans (by decide) h
  · exact List.IsPrefix.trans (by decide) h

theorem head?_of_httpScheme (h : httpScheme <+: location) : location.head? ≠ some slash := by
  obtain ⟨rest, rfl⟩ := h
  intro hslash
  exact absurd (Option.some.inj hslash) (by decide)

/-- A text that ends with the host and a normal path is not the reference which that path is
read from. -/
theorem joined_ne {scheme base : Bytes} (hhost : NormalComponent host)
    (hscheme : ∃ x, base ++ scheme = x ++ [slash]) :
    location ≠ scheme ++ host ++ httpnormpath (base ++ location) := by
  intro heq
  have hne : httpnormpath (base ++ scheme ++ (host ++ httpnormpath (base ++ location))) ≠
      httpnormpath (base ++ location) := httpnormpath_ne (.inr hscheme) hhost
  have hassoc : base ++ scheme ++ (host ++ httpnormpath (base ++ location)) =
      base ++ (scheme ++ host ++ httpnormpath (base ++ location)) := by simp
  rw [hassoc, ← heq] at hne
  exact hne rfl

theorem ok_some_inj {α : Type} {x y : α} : (.ok (some x) : Outcome (Option α)) = .ok (some y) ↔
    x = y := by
  simp

variable {response : HTTPResponse} {connection : Connection} {key : Bytes}

/-- A location that does not begin with a slash. -/
theorem httpGetRedirect_iff_of_ne (h : HasHost request host)
    (hstatus : isRedirectStatus response.status.code = true)
    (hheader : httpHeadersGet response.headers httpHeaderLocation = some ⟨key, location⟩)
    (hslash : location.head? ≠ some slash) :
    httpGetRedirect ⟨request, response, connection⟩ =
        .ok (some (redirectReference request host location)) ↔ WellClassified location := by
  have hone : ¬ [slash] <+: location := by
    rintro ⟨rest, rfl⟩
    exact hslash rfl
  have htwo : ¬ str "//" <+: location := fun h2 => hone (List.IsPrefix.trans (by decide) h2)
  have hwell : WellClassified location ↔
      (str "http://" <+: location ∨ str "https://" <+: location) ∨ ¬ httpScheme <+: location := by
    unfold WellClassified
    constructor
    · rintro (habs | ⟨c, rest, rfl, -, -⟩ | ⟨-, hrel⟩)
      · exact .inl habs
      · exact absurd rfl hslash
      · exact .inr hrel
    · rintro (habs | hrel)
      · exact .inl habs
      · exact .inr (.inr ⟨hslash, hrel⟩)
  have hhttps := @isPrefix_httpScheme_of_https location
  rw [hwell]
  simp only [httpGetRedirect, hheader, hstatus, redirectReference, hslash, hone, htwo,
    Bool.not_true, Bool.false_eq_true, if_false, false_and, ne_eq, not_false_eq_true, if_true]
  by_cases habs : str "http://" <+: location ∨ str "https://" <+: location
  · have hhttp := isPrefix_httpScheme_of_absolute habs
    simp [habs, hhttp]
  · by_cases hhttp : httpScheme <+: location
    · -- the letters "http" alone make the value an absolute URL
      simp only [habs, hhttp, true_or, if_true, if_false, not_true_eq_false, or_self, iff_false,
        ok_some_inj]
      apply joined_ne h.normal
      exact ⟨redirectBase request ++ text request.uri.scheme ++ [colon, slash], by
        simp [schemeSeparator_eq]⟩
    · have hnot : ¬ httpsScheme <+: location := fun hs => hhttp (hhttps hs)
      simp [habs, hhttp, hnot, joinRedirect_eq h]

theorem countp_cons_self (c : UInt8) (s : Bytes) : countp (c :: s) c = countp s c + 1 := by
  simp [countp]

/-- Of three slashes more are dropped than the two that are put before. -/
theorem dropSlashes_ne {scheme rest : Bytes} (h : rest.head? = some slash) :
    scheme ++ schemeSeparator ++
        (slash :: slash :: rest).drop (countp (slash :: slash :: rest) slash) ≠
      scheme ++ [colon] ++ slash :: slash :: rest := by
  obtain ⟨rest, rfl⟩ := List.head?_eq_some_iff.1 h
  have hslashes : 3 ≤ countp (slash :: slash :: slash :: rest) slash := by
    simp only [countp_cons_self]
    omega
  intro heq
  have hlength := congrArg List.length heq
  simp only [schemeSeparator_eq, List.length_append, List.length_drop, List.length_cons,
    List.length_nil] at hlength
  omega

/-- A name after two slashes does not come back when it is taken for a path. -/
theorem joinedSlashes_ne {scheme rest : Bytes} (h : NormalComponent host) :
    scheme ++ schemeSeparator ++ host ++ httpnormpath (slash :: slash :: rest) ≠
      scheme ++ [colon] ++ slash :: slash :: rest := by
  intro heq
  have hcancel : slash :: slash :: rest =
      [slash, slash] ++ host ++ httpnormpath ([] ++ slash :: slash :: rest) := by
    rw [schemeSeparator_eq] at heq
    simpa using heq.symm
  exact joined_ne h (by exact ⟨[slash], rfl⟩) hcancel

/-- A location that begins with a slash. -/
theorem httpGetRedirect_iff_of_slash {rest : Bytes} (h : HasHost request host)
    (hstatus : isRedirectStatus response.status.code = true)
    (hheader : httpHeadersGet response.headers httpHeaderLocation =
      some ⟨key, slash :: rest⟩) :
    httpGetRedirect ⟨request, response, connection⟩ =
        .ok (some (redirectReference request host (slash :: rest))) ↔
      WellClassified (slash :: rest) := by
  have hhttp : ¬ httpScheme <+: slash :: rest := fun hp => head?_of_httpScheme hp rfl
  have hhttps : ¬ httpsScheme <+: slash :: rest := fun hp =>
    hhttp (isPrefix_httpScheme_of_https hp)
  have habs : ¬ (str "http://" <+: slash :: rest ∨ str "https://" <+: slash :: rest) := fun hp =>
    hhttp (isPrefix_httpScheme_of_absolute hp)
  have hone : [slash] <+: slash :: rest := by simp
  have hwell : WellClassified (slash :: rest) ↔
      ∃ c rest', rest = c :: rest' ∧ c ≠ slash ∧ rest'.head? ≠ some slash := by
    simp [WellClassified, habs]
  rw [hwell]
  simp only [httpGetRedirect, hheader, hstatus, redirectReference, hhttp, hhttps, habs, hone,
    or_self, Bool.not_true, Bool.false_eq_true, if_false, List.head?_cons, true_and,
    ne_eq, not_true_eq_false, if_true]
  rcases rest with _ | ⟨c, rest⟩
  · -- the slash alone is rejected
    simp [show ¬ str "//" <+: [slash] by decide, show ¬ str "///" <+: [slash] by decide]
  have hlen : 1 < (slash :: c :: rest).length := by simp
  have htwo : str "//" <+: slash :: c :: rest ↔ slash = c := by
    change [slash, slash] <+: _ ↔ _
    simp [List.cons_prefix_cons]
  have hthree : str "///" <+: slash :: c :: rest → slash = c := fun hp =>
    htwo.1 (List.IsPrefix.trans (by decide) hp)
  simp only [hlen, List.drop_succ_cons, List.drop_zero, true_and, htwo, List.cons.injEq]
  by_cases hc : slash = c
  · obtain rfl := hc
    obtain ⟨scheme, hscheme⟩ := h.scheme
    have hno : ¬ ∃ c' rest', (slash = c' ∧ rest = rest') ∧ c' ≠ slash ∧
        rest'.head? ≠ some slash := by
      rintro ⟨_, _, ⟨rfl, -⟩, hne, -⟩
      exact hne rfl
    simp only [hno, iff_false]
    by_cases hrest : rest.head? = some slash
    · -- three slashes: more are dropped than the two that are put before
      simp only [hrest, hscheme, deref, text, not_true_eq_false, if_false, or_true, if_true,
        ok_bind, pure_eq, ok_some_inj, Option.getD_some]
      exact dropSlashes_ne hrest
    · -- two slashes and a name: taken for a path
      simp only [hrest, joinRedirect_eq h, ok_some_inj, not_false_eq_true, if_true]
      exact joinedSlashes_ne h.normal
  · by_cases hrest : rest.head? = some slash
    · -- a first segment of one character: rejected
      simp only [hc, hrest, mt hthree hc, or_self, not_true_eq_false, if_false, fail_ne_ok,
        false_iff]
      rintro ⟨_, _, ⟨-, rfl⟩, -, hne⟩
      exact hne hrest
    · simp only [hc, hrest, joinRedirect_eq h, not_false_eq_true, if_true, if_false, true_iff]
      exact ⟨c, rest, ⟨rfl, rfl⟩, fun hslash => hc hslash.symm, hrest⟩

end Location

/-- **Redirect references**: a location is followed as RFC 3986 requires if and only if its first
bytes are read as what they are. -/
theorem httpGetRedirect_iff {version : HTTPVersion} {method : HTTPMethod}
    {before after : List HTTPHeader} {url key location : Bytes} {request : HTTPRequest}
    {response : HTTPResponse} {connection : Connection}
    (hbefore : ∀ header ∈ before, header.key ≠ hostKey)
    (hset : httpRequestSetUrl
      (addRequestHeaders { version := version, method := method } before) url = .ok request)
    (hstatus : isRedirectStatus response.status.code = true)
    (hlocation : httpHeadersGet response.headers httpHeaderLocation = some ⟨key, location⟩) :
    httpGetRedirect ⟨addRequestHeaders request after, response, connection⟩ =
        .ok (some (redirectReference (addRequestHeaders request after) (hostValue request.uri)
          location)) ↔
      WellClassified location := by
  have hhost := hasHost_of_setUrl after rfl rfl hbefore hset
  by_cases hslash : location.head? = some slash
  · obtain ⟨rest, rfl⟩ := List.head?_eq_some_iff.1 hslash
    exact httpGetRedirect_iff_of_slash hhost hstatus hlocation
  · exact httpGetRedirect_iff_of_ne hhost hstatus hlocation hslash

/-- A redirection to `location`. -/
def redirectExample (location : Bytes) : HTTPResponse where
  status := ⟨301, none⟩
  headers := httpHeadersAdd {} httpHeaderLocation location

/-- An absolute path. -/
theorem httpGetRedirect_absolutePath :
    let accept := HTTPHeader.mk (str "Accept") (str "*/*")
    let request := (httpRequestSetUrl (addRequestHeaders {} [accept])
      (str "http://example.com/a/b")).toOption.getD {}
    httpGetRedirect ⟨addRequestHeaders request [], redirectExample (str "/login"), {}⟩ =
        .ok (some (redirectReference (addRequestHeaders request []) (hostValue request.uri)
          (str "/login"))) ↔
      WellClassified (str "/login") := by
  intro accept request
  have hbefore : ∀ header ∈ [accept], header.key ≠ hostKey := by decide
  have hset : httpRequestSetUrl (addRequestHeaders {} [accept]) (str "http://example.com/a/b") =
      .ok request := by rfl
  exact httpGetRedirect_iff hbefore hset (by decide) (by rfl)

/-- A first segment of one character is rejected, and the authority of a network-path reference
becomes a segment of the path. -/
theorem not_httpGetRedirect_rejected : ∃ request,
    httpRequestSetUrl {} (str "http://example.com/a/b") = .ok request ∧
      httpGetRedirect ⟨request, redirectExample (str "/a/b"), {}⟩ =
        fail .httpHeadersInvalidLocation ∧
      httpGetRedirect ⟨request, redirectExample (str "//evil.com/x"), {}⟩ =
        .ok (some (str "http://example.com/evil.com/x")) ∧
      redirectReference request (hostValue request.uri) (str "//evil.com/x") =
        str "http://evil.com/x" := by
  refine ⟨_, rfl, rfl, rfl, rfl⟩

end Unalix
