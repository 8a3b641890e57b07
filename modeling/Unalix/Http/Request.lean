import Unalix.Foundations.Lines
import Unalix.Uri.Reading
import Unalix.Http.Headers

/-!
# HTTP requests (`http.c`)

`http_request_set_url` parses a URL into the request and adds its `Host` header;
`http_request_stringify` prints the request line, the headers and the body. Nothing on the way
looks at the characters of path and query. A request reads back as the lines that were put into it
exactly when these two have no space and no CR LF (`request_head_intact_iff`).
-/

namespace Unalix

open CString Ascii Outcome

/-- `enum HTTPMethod`. -/
inductive HTTPMethod
  | get | head | post | put | delete | connect | options | trace
  deriving DecidableEq, Repr

/-- `enum HTTPVersion`. -/
inductive HTTPVersion
  | http10 | http11
  deriving DecidableEq, Repr

/-- `http_method_stringify`. -/
def httpMethodStringify : HTTPMethod → Bytes
  | .get => str "GET"
  | .head => str "HEAD"
  | .post => str "POST"
  | .put => str "PUT"
  | .delete => str "DELETE"
  | .connect => str "CONNECT"
  | .options => str "OPTIONS"
  | .trace => str "TRACE"

/-- `http_version_stringify`. -/
def httpVersionStringify : HTTPVersion → Bytes
  | .http10 => str "1.0"
  | .http11 => str "1.1"

def protocolName : Bytes := str "HTTP"

/-- `struct HTTPRequest`; the body is its content. -/
structure HTTPRequest where
  version : HTTPVersion := .http10
  method : HTTPMethod := .get
  headers : HTTPHeaders := {}
  body : Bytes := []
  uri : URI := {}

/-- `http_request_add_header`. -/
def httpRequestAddHeader (request : HTTPRequest) (key value : Bytes) : HTTPRequest :=
  { request with headers := httpHeadersAdd request.headers key value }

/-- The text of the `Host` header: the port is left out when it is absent, when it is the default
of its scheme, and for a scheme other than the two. -/
def hostValue (uri : URI) : Bytes :=
  if 0 < uri.port ∧ (uri.scheme = some httpScheme ∧ uri.port ≠ httpPort ∨
      uri.scheme = some httpsScheme ∧ uri.port ≠ httpsPort) then
    text uri.hostname ++ [colon] ++ decimal uri.port.toNat
  else text uri.hostname

def hostKey : Bytes := str "Host"

/-- `set_host_header`. -/
def setHostHeader (headers : HTTPHeaders) (uri : URI) : HTTPHeaders :=
  httpHeadersAdd headers hostKey (hostValue uri)

/-- `http_request_set_url`. -/
def httpRequestSetUrl (request : HTTPRequest) (url : Bytes) : Outcome HTTPRequest := do
  let uri ← uriParse request.uri url
  return { request with uri := uri, headers := setHostHeader request.headers uri }

/-- The request target: the path and the query, without the fragment. -/
def resourceLocation (uri : URI) : Bytes :=
  [slash] ++ text uri.path ++ (if uri.query.isSome then questionMark :: text uri.query else [])

/-- The line that begins a request. -/
def requestLine (request : HTTPRequest) : Bytes :=
  httpMethodStringify request.method ++ [space] ++ resourceLocation request.uri ++ [space] ++
    protocolName ++ [slash] ++ httpVersionStringify request.version

/-- The text of the `Content-Length` header: `snprintf` cuts it off after as many digits as the size
of the body has as an `int`. -/
def contentLengthValue (bodySize : ℕ) : Bytes := (decimal bodySize).take (intlen (toInt bodySize))

/-- The header that is added for a body. -/
def addContentLength (request : HTTPRequest) : HTTPRequest :=
  if 0 < request.body.length then
    httpRequestAddHeader request (str "Content-Length") (contentLengthValue request.body.length)
  else request

/-- `http_request_stringify`: the request, with the header it adds, and the buffer. -/
def httpRequestStringify (request : HTTPRequest) : HTTPRequest × Bytes :=
  let request := addContentLength request
  (request, requestLine request ++ crlf ++ httpHeadersStringify request.headers.items [] ++
    crlfcrlf ++ request.body)

theorem uri_httpRequestStringify (request : HTTPRequest) :
    (httpRequestStringify request).1.uri = request.uri := by
  simp only [httpRequestStringify, addContentLength]
  split_ifs <;> rfl

/-! ## Reading a request back -/

/-- The bytes before the first empty line. -/
def headOf (buffer : Bytes) : Bytes :=
  match strstr buffer crlfcrlf with
  | none => buffer
  | some stop => buffer.take (buffer.length - stop.length)

/-- The head of `buffer` consists of the request line of `request`, with its two spaces, and of
one line for each of `headers`. -/
structure HeadIntact (request : HTTPRequest) (headers : List HTTPHeader) (buffer : Bytes) :
    Prop where
  lines : splitPair cr lf (headOf buffer) = requestLine request :: headers.map headerLine
  spaces : (requestLine request).count space = 2

/-- A text without spaces and line ends. -/
def OneWord (s : Bytes) : Prop := space ∉ s ∧ ¬ crlf <:+: s

/-- The path and the query of a tail are single words. -/
def TargetOk (t : Bytes) : Prop :=
  OneWord (before questionMark (after slash t)) ∧ OneWord (before hashtag (after questionMark t))

theorem cr_ne_lf : cr ≠ lf := by decide

/-- The buffer of a request without a body and with at least one header. -/
theorem headOf_stringify {lines : List Bytes} (hne : lines ≠ [])
    (h : ∀ l ∈ lines, l ≠ [] ∧ ¬ crlf <:+: l) :
    headOf (crlf.intercalate lines ++ crlfcrlf) = crlf.intercalate lines := by
  have hfind := strstr_emptyLine cr_ne_lf hne h []
  rw [headOf]
  have hfind' : strstr (crlf.intercalate lines ++ crlfcrlf) crlfcrlf = some crlfcrlf := hfind
  simp only [hfind', List.length_append, Nat.add_sub_cancel, List.take_left]

theorem snd_httpRequestStringify {request : HTTPRequest} (hbody : request.body = [])
    (hne : request.headers.items ≠ []) : (httpRequestStringify request).2 =
      crlf.intercalate (requestLine request :: request.headers.items.map headerLine) ++
        crlfcrlf := by
  have hadd : addContentLength request = request := by
    simp [addContentLength, hbody]
  have hmap : request.headers.items.map headerLine ≠ [] := by simpa using hne
  obtain ⟨l, ls, hl⟩ := List.exists_cons_of_ne_nil hmap
  simp only [httpRequestStringify, hadd, hbody, List.append_nil, httpHeadersStringify_eq]
  rw [hl, List.intercalate_cons_cons]

/-! ## The request line -/

theorem count_space_requestLine (request : HTTPRequest) :
    (requestLine request).count space = (resourceLocation request.uri).count space + 2 := by
  have hmethod : (httpMethodStringify request.method).count space = 0 := by
    cases request.method <;> decide
  have hversion : (httpVersionStringify request.version).count space = 0 := by
    cases request.version <;> decide
  have hspace : [space].count space = 1 := by decide
  have hname : protocolName.count space = 0 := by decide
  have hslash : [slash].count space = 0 := by decide
  simp only [requestLine, List.count_append, hmethod, hversion, hspace, hname, hslash]
  omega

/-- A pair of characters lies on one side of a character that is neither. -/
theorem pair_infix_append_cons {c d x : UInt8} (hc : x ≠ c) (hd : x ≠ d) {a b : Bytes} :
    [c, d] <:+: a ++ x :: b ↔ [c, d] <:+: a ∨ [c, d] <:+: b := by
  constructor
  · intro h
    induction a with
    | nil =>
      rw [List.nil_append, List.infix_cons_iff] at h
      rcases h with h | h
      · exact absurd (List.cons_prefix_cons.1 h).1.symm hc
      · exact .inr h
    | cons y a ih =>
      rw [List.cons_append, List.infix_cons_iff] at h
      rcases h with h | h
      · left
        obtain ⟨rfl, h'⟩ := List.cons_prefix_cons.1 h
        cases a with
        | nil => exact absurd (singleton_prefix_cons.1 h').symm hd
        | cons z a =>
          obtain rfl := singleton_prefix_cons.1 h'
          exact List.IsPrefix.isInfix ⟨a, rfl⟩
      · exact (ih h).imp_left List.infix_cons
  · rintro (h | h)
    · exact h.trans (List.prefix_append a _).isInfix
    · exact h.trans ((List.suffix_cons x b).trans (List.suffix_append a _)).isInfix

theorem crlf_infix_cut {x : UInt8} (hc : x ≠ cr) (hl : x ≠ lf) {a b : Bytes} :
    crlf <:+: a ++ x :: b ↔ crlf <:+: a ∨ crlf <:+: b :=
  pair_infix_append_cons hc hl

theorem not_crlf_infix_of_not_mem {s : Bytes} (h : cr ∉ s) : ¬ crlf <:+: s := fun hin =>
  h (hin.subset (by simp [crlf]))

theorem resourceLocation_eq (uri : URI) : resourceLocation uri =
    [] ++ slash :: (text uri.path ++
      (if uri.query.isSome then questionMark :: text uri.query else [])) := by
  simp [resourceLocation]

theorem crlf_infix_resourceLocation_iff (uri : URI) : crlf <:+: resourceLocation uri ↔
    crlf <:+: text uri.path ∨ crlf <:+: text uri.query := by
  have hnil : ¬ crlf <:+: [] := not_crlf_infix_of_not_mem (by simp)
  rw [resourceLocation_eq, crlf_infix_cut (by decide) (by decide), or_iff_right hnil]
  cases uri.query with
  | none =>
    rw [Option.isSome_none, if_neg (by simp), List.append_nil]
    exact (or_iff_left hnil).symm
  | some q => rw [Option.isSome_some, if_pos rfl, crlf_infix_cut (by decide) (by decide)]

theorem crlf_infix_requestLine_iff (request : HTTPRequest) : crlf <:+: requestLine request ↔
    crlf <:+: text request.uri.path ∨ crlf <:+: text request.uri.query := by
  have hmethod : ¬ crlf <:+: httpMethodStringify request.method :=
    not_crlf_infix_of_not_mem (by cases request.method <;> decide)
  have hversion : ¬ crlf <:+: protocolName ++ ([slash] ++ httpVersionStringify request.version) :=
    not_crlf_infix_of_not_mem (by cases request.version <;> decide)
  have hline : requestLine request = httpMethodStringify request.method ++ space ::
      (resourceLocation request.uri ++ space ::
        (protocolName ++ ([slash] ++ httpVersionStringify request.version))) := by
    simp [requestLine]
  rw [hline, crlf_infix_cut (by decide) (by decide), crlf_infix_cut (by decide) (by decide),
    or_iff_right hmethod, or_iff_left hversion, crlf_infix_resourceLocation_iff]

theorem count_space_resourceLocation_eq_zero_iff (uri : URI) :
    (resourceLocation uri).count space = 0 ↔ space ∉ text uri.path ∧ space ∉ text uri.query := by
  rw [List.count_eq_zero]
  rcases hq : uri.query with _ | q
  · simp [resourceLocation, hq, text, show space ≠ slash by decide]
  · simp [resourceLocation, hq, text, show space ≠ slash by decide,
      show space ≠ questionMark by decide]

/-! ## The host header -/

/-- The characters a `Host` header is written with. -/
def IsHostChar (c : UInt8) : Prop := isalnum c = true ∨ c = hyphen ∨ c = dot ∨ c = colon

theorem isHostChar_of_mem_hostname (R : Reading) : ∀ c ∈ text R.uri.hostname, IsHostChar c := by
  intro c hc
  have hok := R.host_ok
  simp only [Reading.uri, text, Option.getD_some, readHostname] at hc
  unfold HostOk at hok
  split_ifs at hok hc with hb
  · rcases isAddressChar_of_isipv6 hok.address c hc with h | h | h
    · left
      simp only [isxdigit, isalnum, isalpha, isupper, islower, isdigit, Bool.and_eq_true,
        Bool.or_eq_true, decide_eq_true_eq] at h ⊢
      grind
    · exact .inr (.inr (.inr h))
    · exact .inr (.inr (.inl h))
  · obtain ⟨x, hx, rfl⟩ := List.mem_map.1 hc
    rcases hok.labels.chars x hx with h | rfl | rfl
    · exact .inl (isalnum_lower h)
    · exact .inr (.inl (lower_of_not_isupper (by decide)))
    · exact .inr (.inr (.inl (lower_of_not_isupper (by decide))))

theorem isHostChar_of_mem_hostValue (R : Reading) : ∀ c ∈ hostValue R.uri, IsHostChar c := by
  intro c hc
  unfold hostValue at hc
  split_ifs at hc
  · rcases List.mem_append.1 hc with hc | hc
    · rcases List.mem_append.1 hc with hc | hc
      · exact isHostChar_of_mem_hostname R c hc
      · exact .inr (.inr (.inr (List.mem_singleton.1 hc)))
    · have hdigit := isdigit_decimal _ c hc
      exact .inl (by simp [isalnum, hdigit])
  · exact isHostChar_of_mem_hostname R c hc

theorem cr_not_mem_hostLine (R : Reading) : cr ∉ headerLine ⟨hostKey, hostValue R.uri⟩ := by
  have hvalue : cr ∉ hostValue R.uri := fun hc =>
    absurd (isHostChar_of_mem_hostValue R cr hc) (by unfold IsHostChar; decide)
  simp only [headerLine, List.mem_append, not_or]
  exact ⟨⟨by decide, by decide⟩, hvalue⟩

/-! ## The head of a request -/

/-- Adding headers to a request one by one. -/
def addRequestHeaders (request : HTTPRequest) (headers : List HTTPHeader) : HTTPRequest :=
  headers.foldl (fun request header => httpRequestAddHeader request header.key header.value) request

theorem addRequestHeaders_eq (request : HTTPRequest) (headers : List HTTPHeader) :
    addRequestHeaders request headers =
      { request with headers := addHeaders request.headers headers } := by
  induction headers generalizing request with
  | nil => rfl
  | cons header headers ih =>
    rw [addRequestHeaders, List.foldl_cons, ← addRequestHeaders, ih]
    rfl

@[simp] theorem uri_addRequestHeaders (request : HTTPRequest) (headers : List HTTPHeader) :
    (addRequestHeaders request headers).uri = request.uri := by
  rw [addRequestHeaders_eq]

@[simp] theorem body_addRequestHeaders (request : HTTPRequest) (headers : List HTTPHeader) :
    (addRequestHeaders request headers).body = request.body := by
  rw [addRequestHeaders_eq]

@[simp] theorem items_addRequestHeaders (request : HTTPRequest) (headers : List HTTPHeader) :
    (addRequestHeaders request headers).headers.items = request.headers.items ++ headers := by
  rw [addRequestHeaders_eq, items_addHeaders]

/-- `http_request_set_url` on a request whose URI is zeroed succeeds with the URI of a reading. -/
theorem exists_reading_of_setUrl {request request' : HTTPRequest} {url : Bytes}
    (hzero : request.uri = {}) (h : httpRequestSetUrl request url = .ok request') :
    ∃ R : Reading, R.text = url ∧ request'.uri = R.uri ∧ request'.body = request.body ∧
      request'.headers.items = request.headers.items ++ [⟨hostKey, hostValue R.uri⟩] := by
  rw [httpRequestSetUrl, hzero, bind_eq_ok] at h
  obtain ⟨uri, huri, h⟩ := h
  obtain ⟨R, hR, rfl⟩ := uriParse_eq_ok_iff.1 huri
  obtain rfl := Except.ok.inj h
  exact ⟨R, hR, rfl, rfl, rfl⟩

/-- A string has one reading. -/
theorem Reading.uri_congr {R S : Reading} (h : R.text = S.text) : R.uri = S.uri := by
  have hR := uriParse_eq_ok_iff.2 ⟨R, h, rfl⟩
  have hS := uriParse_eq_ok_iff.2 ⟨S, rfl, rfl⟩
  exact Except.ok.inj (hR.symm.trans hS)

theorem targetOk_iff (R : Reading) : TargetOk R.tail ↔
    OneWord (text R.uri.path) ∧ OneWord (text R.uri.query) := by
  simp only [Reading.uri, readPath, readQuery, text_nonempty, TargetOk]

/-- The head of a request whose headers are safe, but for the `Host` header that was set. -/
theorem headIntact_iff {request : HTTPRequest} {before after : List HTTPHeader}
    {host : HTTPHeader} (hbody : request.body = [])
    (hitems : request.headers.items = before ++ host :: after) (hhost : cr ∉ headerLine host)
    (hbefore : ∀ header ∈ before, SafeHeader header)
    (hafter : ∀ header ∈ after, SafeHeader header) :
    HeadIntact request (before ++ host :: after) (httpRequestStringify request).2 ↔
      OneWord (text request.uri.path) ∧ OneWord (text request.uri.query) := by
  have hne : request.headers.items ≠ [] := by simp [hitems]
  have hsafe : ∀ l ∈ (before ++ host :: after).map headerLine, l ≠ [] ∧ ¬ crlf <:+: l := by
    intro l hl
    obtain ⟨header, hheader, rfl⟩ := List.mem_map.1 hl
    refine ⟨headerLine_ne_nil header, not_crlf_infix_of_not_mem ?_⟩
    rcases List.mem_append.1 hheader with hmem | hmem
    · exact (hbefore header hmem).cr_not_mem
    · rcases List.mem_cons.1 hmem with rfl | hmem
      · exact hhost
      · exact (hafter header hmem).cr_not_mem
  have hbuffer := snd_httpRequestStringify hbody hne
  rw [hitems] at hbuffer
  have hcount := count_space_requestLine request
  have hspaces := count_space_resourceLocation_eq_zero_iff request.uri
  have hcrlf := crlf_infix_requestLine_iff request
  constructor
  · intro h
    have hline : ¬ crlf <:+: requestLine request := by
      apply not_infix_of_mem_splitPair (s := headOf (httpRequestStringify request).2)
      rw [h.lines]
      exact List.mem_cons_self
    rw [hcrlf, not_or] at hline
    have hzero : (resourceLocation request.uri).count space = 0 := by
      have := h.spaces
      omega
    obtain ⟨hpath, hquery⟩ := hspaces.1 hzero
    exact ⟨⟨hpath, hline.1⟩, hquery, hline.2⟩
  · rintro ⟨⟨hpath, hp⟩, hquery, hq⟩
    have hline : ¬ crlf <:+: requestLine request := by
      rw [hcrlf, not_or]
      exact ⟨hp, hq⟩
    have hlines : ∀ l ∈ requestLine request :: (before ++ host :: after).map headerLine,
        l ≠ [] ∧ ¬ crlf <:+: l := by
      rw [List.forall_mem_cons]
      exact ⟨⟨by simp [requestLine], hline⟩, hsafe⟩
    refine ⟨?_, ?_⟩
    · rw [hbuffer, headOf_stringify (by simp) hlines]
      exact splitPair_intercalate cr_ne_lf (by simp) fun l hl => (hlines l hl).2
    · rw [hcount, hspaces.2 ⟨hpath, hquery⟩]

/-- **Request head integrity**: for safe headers added before and after the URL is set, the printed
head has the lines that were put into it if and only if the path and the query of the URL are
single words. -/
theorem request_head_intact_iff {version : HTTPVersion} {method : HTTPMethod}
    {before after : List HTTPHeader} {url : Bytes} {request : HTTPRequest}
    (hbefore : ∀ header ∈ before, SafeHeader header) (hafter : ∀ header ∈ after, SafeHeader header)
    (hset : httpRequestSetUrl
      (addRequestHeaders { version := version, method := method } before) url = .ok request) :
    HeadIntact (addRequestHeaders request after)
        (before ++ ⟨hostKey, hostValue request.uri⟩ :: after)
        (httpRequestStringify (addRequestHeaders request after)).2 ↔
      ∃ R : Reading, R.text = url ∧ TargetOk R.tail := by
  obtain ⟨R, rfl, huri, hbody, hitems⟩ := exists_reading_of_setUrl (by simp) hset
  have hiff : TargetOk R.tail ↔ ∃ S : Reading, S.text = R.text ∧ TargetOk S.tail := by
    constructor
    · intro h
      exact ⟨R, rfl, h⟩
    · rintro ⟨S, hS, h⟩
      rw [targetOk_iff] at h ⊢
      rwa [Reading.uri_congr hS] at h
  rw [← hiff, targetOk_iff, huri]
  have huri' : (addRequestHeaders request after).uri = R.uri := by
    rw [uri_addRequestHeaders, huri]
  have hbody' : (addRequestHeaders request after).body = [] := by
    rw [body_addRequestHeaders, hbody, body_addRequestHeaders]
  have hitems' : (addRequestHeaders request after).headers.items =
      before ++ ⟨hostKey, hostValue R.uri⟩ :: after := by
    rw [items_addRequestHeaders, hitems, items_addRequestHeaders, List.append_assoc,
      List.singleton_append]
    rfl
  have hhead := headIntact_iff hbody' hitems' (cr_not_mem_hostLine R) hbefore hafter
  rwa [huri'] at hhead

/-- A URL with a path and a query of single words. -/
theorem request_head_intact_plain :
    let request := (httpRequestSetUrl (addRequestHeaders {} [⟨str "Accept", str "*/*"⟩])
      (str "http://example.com/a?b=c#d e")).toOption.getD {}
    HeadIntact (addRequestHeaders request [])
        ([⟨str "Accept", str "*/*"⟩] ++ ⟨hostKey, hostValue request.uri⟩ :: [])
        (httpRequestStringify (addRequestHeaders request [])).2 ↔
      ∃ R : Reading, R.text = str "http://example.com/a?b=c#d e" ∧ TargetOk R.tail :=
  request_head_intact_iff
    (by
      intro header hheader
      rw [List.mem_singleton] at hheader
      rw [hheader]
      exact ⟨by decide, by decide⟩)
    (by simp) (by rfl)

/-- A path with CR LF adds a line of its own. -/
theorem not_head_intact_injected : ∃ request,
    httpRequestSetUrl {} (str "http://example.com/ HTTP/1.1\r\nX: y") = .ok request ∧
      ¬ HeadIntact request [⟨hostKey, hostValue request.uri⟩] (httpRequestStringify request).2 := by
  refine ⟨_, rfl, fun h => ?_⟩
  exact absurd h.spaces (by decide)

end Unalix
