import Unalix.Foundations.Buffers
import Unalix.Http.Response

/-!
# The arrays of a request (`http.c`)

`set_host_header` and `http_request_stringify` compute the sizes of their arrays first and fill
them with `strcpy`, `strcat` and `memcpy`, which write what they are given. Here the same functions
are written over `Buffer`, which keeps both. The `Host` header is one byte longer than its array
when it shows a port (`hostHeader_fits_iff`); the buffer of a request has no byte for the terminator
of the head, which lies on the first byte of the body or, without a body, behind the buffer
(`request_inBuffers_iff`). The texts themselves are those of `hostValue` and
`httpRequestStringify`.
-/

namespace Unalix

open Ascii Outcome Buffers

/-! ## The host header -/

/-- The arrays of `set_host_header`; the second one is only there for a port that is shown. -/
structure HostBuffers where
  host : Buffer UInt8
  port : Option (Buffer UInt8)
  deriving DecidableEq, Repr

/-- The port is shown: it is there, and is not the default one of its scheme. -/
def ShowsPort (uri : URI) : Prop :=
  0 < uri.port ∧ (uri.scheme = some httpScheme ∧ uri.port ≠ httpPort ∨
    uri.scheme = some httpsScheme ∧ uri.port ≠ httpsPort)

instance (uri : URI) : Decidable (ShowsPort uri) := inferInstanceAs (Decidable (_ ∧ _))

theorem hostValue_eq_ite (uri : URI) : hostValue uri = if ShowsPort uri then
    text uri.hostname ++ [colon] ++ decimal uri.port.toNat else text uri.hostname := rfl

/-- `set_host_header`, up to the addition of the header. -/
def hostBuffers (uri : URI) : Outcome HostBuffers := do
  let portSize := intlen uri.port
  let hostname ← deref uri.hostname
  let host := Buffer.ofSize (hostname.length + [colon].length + if 0 < uri.port then portSize else 0)
  let host := host.strcpy hostname
  if ShowsPort uri then
    let host := host.strcat [colon]
    let port := Buffer.ofSize (portSize + 1)
    let port := port.snprintf port.size (decimal uri.port.toNat)
    return ⟨host.strcat port.content, some port⟩
  else return ⟨host, none⟩

/-- Every byte is written inside the arrays. -/
structure HostBuffers.Fits (b : HostBuffers) : Prop where
  host : b.host.Fits
  port : ∀ port ∈ b.port, port.Fits

/-- The arrays of a URI with a hostname. -/
theorem hostBuffers_eq {uri : URI} {hostname : Bytes} (h : uri.hostname = some hostname) :
    hostBuffers uri = .ok (if ShowsPort uri then
      ⟨(((Buffer.ofSize (hostname.length + 1 + intlen uri.port)).strcpy hostname).strcat
          [colon]).strcat (decimal uri.port.toNat),
        some ((Buffer.ofSize (intlen uri.port + 1)).snprintf (intlen uri.port + 1)
          (decimal uri.port.toNat))⟩
    else ⟨(Buffer.ofSize (hostname.length + 1 + if 0 < uri.port then intlen uri.port else 0)).strcpy
      hostname, none⟩) := by
  simp only [hostBuffers, h, deref, ok_bind, pure_eq, List.length_singleton, Buffer.size_ofSize]
  split_ifs with hshow hpos
  · have hlength : (decimal uri.port.toNat).length = intlen uri.port := by
      rw [length_decimal, Int.toNat_of_nonneg hshow.1.le]
    rw [Buffer.content_snprintf _ (by omega)]
  · exact absurd hshow.1 hpos
  · rfl
  · rfl

/-- There is room for hostname, colon and port, and none for the terminator behind them. -/
theorem not_fits_of_showsPort {uri : URI} {hostname : Bytes} {b : HostBuffers}
    (hname : uri.hostname = some hostname) (hshow : ShowsPort uri)
    (hb : hostBuffers uri = .ok b) : ¬ b.Fits := by
  rw [hostBuffers_eq hname, if_pos hshow, Except.ok.injEq] at hb
  subst hb
  intro hfits
  have hlength : (decimal uri.port.toNat).length = intlen uri.port := by
    rw [length_decimal, Int.toNat_of_nonneg hshow.1.le]
  have hterminated := ((Buffer.terminated_strcpy (hostname.length + 1 + intlen uri.port)
    hostname).strcat [colon]).strcat (decimal uri.port.toNat)
  have hle := hterminated.fits_iff.1 hfits.host
  simp only [Buffer.content_strcat, Buffer.content_strcpy, Buffer.size_strcat,
    Buffer.size_strcpy, Buffer.size_ofSize, List.length_append, List.length_singleton,
    hlength] at hle
  omega

/-- **The array of the `Host` header suffices** for a URI that the parser accepts if and only if the
header does not show the port; its text is the host with the port that is shown. -/
theorem hostHeader_fits_iff {url : Bytes} {uri : URI} (h : uriParse {} url = .ok uri) :
    (∃ b, hostBuffers uri = .ok b ∧ b.Fits ∧ b.host.content = hostValue uri) ↔
      ¬ ShowsPort uri := by
  obtain ⟨R, -, rfl⟩ := uriParse_eq_ok_iff.1 h
  have hname : R.uri.hostname = some (text R.uri.hostname) := rfl
  by_cases hshow : ShowsPort R.uri
  · refine iff_of_false ?_ (not_not.2 hshow)
    rintro ⟨b, hb, hfits, -⟩
    exact not_fits_of_showsPort hname hshow hb hfits
  · have heq := hostBuffers_eq hname
    rw [if_neg hshow] at heq
    refine iff_of_true ⟨_, heq, ⟨?_, by simp⟩, ?_⟩ hshow
    · rw [(Buffer.terminated_strcpy _ (text R.uri.hostname)).fits_iff]
      simp only [Buffer.content_strcpy, Buffer.size_strcpy, Buffer.size_ofSize]
      omega
    · rw [hostValue_eq_ite, if_neg hshow]
      rfl

/-- A default port is not shown. -/
theorem hostHeader_fits_default :
    let uri := (uriParse {} (str "http://example.com:80/")).toOption.getD {}
    (∃ b, hostBuffers uri = .ok b ∧ b.Fits ∧ b.host.content = hostValue uri) ↔
      ¬ ShowsPort uri :=
  @hostHeader_fits_iff (str "http://example.com:80/") _ (by rfl)

/-- With port 8080 the array has sixteen bytes, and seventeen are written. -/
theorem not_hostHeader_fits_8080 : ∃ uri, uriParse {} (str "http://example.com:8080/") = .ok uri ∧
    ¬ ∃ b, hostBuffers uri = .ok b ∧ b.Fits ∧ b.host.content = hostValue uri := by
  refine ⟨_, rfl, ?_⟩
  rintro ⟨b, hb, hfits, -⟩
  exact not_fits_of_showsPort rfl (by decide) hb hfits

/-! ## The request -/

/-- `http_headers_stringify` into an array. -/
def httpHeadersWrite : List HTTPHeader → Buffer UInt8 → Buffer UInt8
  | [], dst => dst
  | header :: headers, dst =>
    let dst := if dst.content ≠ [] then dst.strcat crlf else dst
    httpHeadersWrite headers ((((dst.strcat header.key).strcat [colon]).strcat [space]).strcat
      header.value)

/-- The path and the query, as `http_request_stringify` writes them. -/
def resourceLocationBuffer (uri : URI) : Buffer UInt8 :=
  let dst := Buffer.ofSize ([slash].length + (if uri.path.isSome then (text uri.path).length else 0) +
    (if uri.query.isSome then [questionMark].length + (text uri.query).length else 0) + 1)
  let dst := dst.strcpy [slash]
  let dst := if uri.path.isSome then dst.strcat (text uri.path) else dst
  if uri.query.isSome then (dst.strcat [questionMark]).strcat (text uri.query) else dst

/-- The array for the text of the `Content-Length` header. -/
def contentLengthBuffer (bodySize : ℕ) : Buffer UInt8 :=
  let value := Buffer.ofSize (intlen (toInt bodySize) + 1)
  value.snprintf value.size (decimal bodySize)

/-- The arrays of `http_request_stringify`, and the size it returns. -/
structure RequestBuffers where
  contentLength : Option (Buffer UInt8)
  resourceLocation : Buffer UInt8
  headers : Buffer UInt8
  buffer : Buffer UInt8
  dstSize : ℕ
  deriving DecidableEq, Repr

/-- The head, as `http_request_stringify` writes it to the buffer. -/
def headBuffer (bufferSize : ℕ) (httpMethod resourceLocation httpVersion headers : Bytes) :
    Buffer UInt8 :=
  let buffer := ((Buffer.ofSize bufferSize).strcpy httpMethod).strcat [space]
  let buffer := (buffer.strcat resourceLocation).strcat [space]
  let buffer := (((buffer.strcat protocolName).strcat [slash]).strcat httpVersion).strcat crlf
  (buffer.strcat headers).strcat crlfcrlf

/-- The size that is computed for the buffer. -/
def bufferSize (httpMethod resourceLocation httpVersion headers body : Bytes) : ℕ :=
  httpMethod.length + [space].length + resourceLocation.length + [space].length +
    protocolName.length + [slash].length + httpVersion.length + crlf.length + headers.length +
    crlfcrlf.length + body.length

/-- `http_request_stringify` over its arrays. -/
def requestBuffers (obj : HTTPRequest) : RequestBuffers :=
  let contentLength :=
    if 0 < obj.body.length then some (contentLengthBuffer obj.body.length) else none
  let obj := match contentLength with
    | none => obj
    | some value => httpRequestAddHeader obj (str "Content-Length") value.content
  let resourceLocation := resourceLocationBuffer obj.uri
  let httpMethod := httpMethodStringify obj.method
  let httpVersion := httpVersionStringify obj.version
  let headers := httpHeadersWrite obj.headers.items
    ((Buffer.ofSize (obj.headers.slength + 1)).strcpy [])
  let size := bufferSize httpMethod resourceLocation.content httpVersion headers.content obj.body
  let buffer := headBuffer size httpMethod resourceLocation.content httpVersion headers.content
  let buffer := if 0 < obj.body.length then buffer.memcpyEnd obj.body else buffer
  { contentLength, resourceLocation, headers, buffer, dstSize := size }

/-- Every byte is written inside the arrays, and the size returned is that of the text. -/
structure RequestBuffers.Exact (b : RequestBuffers) : Prop where
  contentLength : ∀ value ∈ b.contentLength, value.Fits
  resourceLocation : b.resourceLocation.Fits
  headers : b.headers.Fits
  buffer : b.buffer.Fits
  dstSize : b.dstSize = b.buffer.content.length

/-- A request that is built by calls on a zeroed context. -/
inductive Built : HTTPRequest → Prop
  | zero (version : HTTPVersion) (method : HTTPMethod) :
    Built { version := version, method := method }
  | addHeader {request : HTTPRequest} (h : Built request) (key value : Bytes) :
    Built (httpRequestAddHeader request key value)
  | setUrl {request request' : HTTPRequest} {url : Bytes} (h : Built request)
    (hset : httpRequestSetUrl request url = .ok request') : Built request'
  | setBody {request : HTTPRequest} (h : Built request) (body : Bytes) :
    Built { request with body := body }

/-- The length that is kept beside the headers of a request is exact. -/
theorem Built.exactLength {request : HTTPRequest} (h : Built request) :
    ExactLength request.headers := by
  induction h with
  | zero => rfl
  | addHeader h key value ih => exact ih.httpHeadersAdd key value
  | setUrl h hset ih =>
    rw [httpRequestSetUrl, bind_eq_ok] at hset
    obtain ⟨uri, -, hset⟩ := hset
    obtain rfl := Except.ok.inj hset
    exact ih.httpHeadersAdd _ _
  | setBody h body ih => exact ih

/-- The headers are written as they are printed, and up to their terminator. -/
theorem httpHeadersWrite_spec (headers : List HTTPHeader) {dst : Buffer UInt8}
    (h : dst.Terminated) : (httpHeadersWrite headers dst).Terminated ∧
      (httpHeadersWrite headers dst).size = dst.size ∧
      (httpHeadersWrite headers dst).content = httpHeadersStringify headers dst.content := by
  induction headers generalizing dst with
  | nil => exact ⟨h, rfl, rfl⟩
  | cons header headers ih =>
    have hsep : (if dst.content ≠ [] then dst.strcat crlf else dst).Terminated := by
      split_ifs
      · exact h.strcat crlf
      · exact h
    have hline := (((hsep.strcat header.key).strcat [colon]).strcat [space]).strcat header.value
    obtain ⟨hterminated, hsize, hcontent⟩ := ih hline
    refine ⟨hterminated, ?_, ?_⟩
    · rw [httpHeadersWrite, hsize]
      simp only [Buffer.size_strcat]
      split_ifs <;> rfl
    · rw [httpHeadersWrite, hcontent, httpHeadersStringify]
      simp only [Buffer.content_strcat]
      split_ifs <;> simp

/-- The resource location fills its array. -/
theorem resourceLocationBuffer_spec (uri : URI) : (resourceLocationBuffer uri).Fits ∧
    (resourceLocationBuffer uri).content = resourceLocation uri := by
  have hslash (n : ℕ) := Buffer.terminated_strcpy n [slash]
  rcases hp : uri.path with _ | p <;> rcases hq : uri.query with _ | q
  · refine ⟨?_, by simp [resourceLocationBuffer, resourceLocation, hp, hq, text]⟩
    simp only [resourceLocationBuffer, hp, hq, Option.isSome_none, Bool.false_eq_true, if_false]
    rw [(hslash _).fits_iff]
    simp
  · refine ⟨?_, by simp [resourceLocationBuffer, resourceLocation, hp, hq, text]⟩
    simp only [resourceLocationBuffer, hp, hq, Option.isSome_none, Option.isSome_some,
      Bool.false_eq_true, if_false, if_true]
    rw [(((hslash _).strcat _).strcat _).fits_iff]
    simp [text]
    omega
  · refine ⟨?_, by simp [resourceLocationBuffer, resourceLocation, hp, hq, text]⟩
    simp only [resourceLocationBuffer, hp, hq, Option.isSome_none, Option.isSome_some,
      Bool.false_eq_true, if_false, if_true]
    rw [((hslash _).strcat _).fits_iff]
    simp [text]
  · refine ⟨?_, by simp [resourceLocationBuffer, resourceLocation, hp, hq, text]⟩
    simp only [resourceLocationBuffer, hp, hq, Option.isSome_some, if_true]
    rw [((((hslash _).strcat _).strcat _).strcat _).fits_iff]
    simp [text]
    omega

/-- The head and its terminator, and the size without the terminator. -/
theorem headBuffer_spec (httpMethod resourceLocation httpVersion headers body : Bytes) :
    let size := bufferSize httpMethod resourceLocation httpVersion headers body
    let buffer := headBuffer size httpMethod resourceLocation httpVersion headers
    buffer.Terminated ∧ buffer.size = buffer.content.length + body.length := by
  intro size buffer
  have hline := (((Buffer.terminated_strcpy size httpMethod).strcat [space]).strcat
    resourceLocation).strcat [space]
  have hversion := (((hline.strcat protocolName).strcat [slash]).strcat httpVersion).strcat crlf
  refine ⟨(hversion.strcat headers).strcat crlfcrlf, ?_⟩
  simp only [buffer, headBuffer, size, bufferSize, Buffer.size_strcat, Buffer.size_strcpy,
    Buffer.size_ofSize, Buffer.content_strcat, Buffer.content_strcpy, List.length_append]

/-- The text of the `Content-Length` header, which `snprintf` keeps inside its array. -/
theorem contentLengthBuffer_spec (bodySize : ℕ) : (contentLengthBuffer bodySize).Fits ∧
    (contentLengthBuffer bodySize).content = contentLengthValue bodySize := by
  refine ⟨Buffer.fits_snprintf (Nat.zero_le _) le_rfl _, ?_⟩
  simp only [contentLengthBuffer, Buffer.snprintf, Buffer.size_ofSize, Nat.add_sub_cancel,
    contentLengthValue]

theorem addContentLength_eq (obj : HTTPRequest) :
    (match if 0 < obj.body.length then some (contentLengthBuffer obj.body.length) else none with
      | none => obj
      | some value => httpRequestAddHeader obj (str "Content-Length") value.content) =
    addContentLength obj := by
  unfold addContentLength
  split_ifs
  · rw [← (contentLengthBuffer_spec obj.body.length).2]
  · rfl

/-- What the header for a body leaves as it is. -/
theorem addContentLength_spec (obj : HTTPRequest) : (addContentLength obj).uri = obj.uri ∧
    (addContentLength obj).method = obj.method ∧ (addContentLength obj).version = obj.version ∧
    (addContentLength obj).body = obj.body := by
  unfold addContentLength
  split_ifs
  · exact ⟨rfl, rfl, rfl, rfl⟩
  · exact ⟨rfl, rfl, rfl, rfl⟩

theorem exactLength_addContentLength {obj : HTTPRequest} (h : ExactLength obj.headers) :
    ExactLength (addContentLength obj).headers := by
  unfold addContentLength
  split_ifs
  · exact h.httpHeadersAdd _ _
  · exact h

/-- The headers are printed to their array. -/
theorem content_headersBuffer (headers : HTTPHeaders) :
    (httpHeadersWrite headers.items ((Buffer.ofSize (headers.slength + 1)).strcpy [])).content =
      httpHeadersStringify headers.items [] :=
  (httpHeadersWrite_spec headers.items (Buffer.terminated_strcpy _ _)).2.2

/-- The headers fill their array. -/
theorem fits_headersBuffer {headers : HTTPHeaders} (h : ExactLength headers) :
    (httpHeadersWrite headers.items
      ((Buffer.ofSize (headers.slength + 1)).strcpy [])).Fits := by
  obtain ⟨hterminated, hsize, hcontent⟩ :=
    httpHeadersWrite_spec headers.items (Buffer.terminated_strcpy (headers.slength + 1) [])
  rw [hterminated.fits_iff, hsize, hcontent, Buffer.content_strcpy, ← h]
  exact le_rfl

/-- **The buffer of a request**: it is as large as the text, and the terminator of the head lies behind
it when the text ends with the head. -/
theorem requestBuffers_buffer (obj : HTTPRequest) :
    (requestBuffers obj).buffer.content = (httpRequestStringify obj).2 ∧
      (requestBuffers obj).buffer.size = (httpRequestStringify obj).2.length ∧
      (requestBuffers obj).buffer.reach =
        (requestBuffers obj).buffer.size + if obj.body = [] then 1 else 0 := by
  obtain ⟨huri, hmethod, hversion, hbody⟩ := addContentLength_spec obj
  have htext := (resourceLocationBuffer_spec obj.uri).2
  have hheaders := content_headersBuffer (addContentLength obj).headers
  have hline : requestLine (addContentLength obj) = httpMethodStringify obj.method ++ [space] ++
      resourceLocation obj.uri ++ [space] ++ protocolName ++ [slash] ++
        httpVersionStringify obj.version := by
    rw [requestLine, huri, hmethod, hversion]
  obtain ⟨hterminated, hlength⟩ := headBuffer_spec (httpMethodStringify obj.method)
    (resourceLocation obj.uri) (httpVersionStringify obj.version)
    (httpHeadersStringify (addContentLength obj).headers.items []) obj.body
  obtain ⟨happend, hsize, hreach⟩ := hterminated.append hlength
  have hcontent : (requestBuffers obj).buffer.content = (httpRequestStringify obj).2 := by
    simp only [requestBuffers, addContentLength_eq, huri, hmethod, hversion, hbody, htext, hheaders,
      httpRequestStringify, hline, happend]
    rfl
  refine ⟨hcontent, ?_, ?_⟩
  · rw [← hcontent]
    simp only [requestBuffers, addContentLength_eq, huri, hmethod, hversion, hbody, htext, hheaders,
      hsize, happend, List.length_append, hlength]
  · simp only [requestBuffers, addContentLength_eq, huri, hmethod, hversion, hbody, htext, hheaders,
      hsize, hreach]

theorem dstSize_requestBuffers (obj : HTTPRequest) :
    (requestBuffers obj).dstSize = (requestBuffers obj).buffer.size := by
  simp only [requestBuffers]
  split_ifs <;> rfl

/-- **The arrays of a request** hold its texts, and suffice but for the terminator of a buffer that
ends with the head. -/
theorem requestBuffers_exact_iff {obj : HTTPRequest} (h : ExactLength obj.headers) :
    (requestBuffers obj).buffer.content = (httpRequestStringify obj).2 ∧
      ((requestBuffers obj).Exact ↔ obj.body ≠ []) := by
  obtain ⟨hcontent, hsize, hreach⟩ := requestBuffers_buffer obj
  have hheaders := fits_headersBuffer (exactLength_addContentLength h)
  refine ⟨hcontent, fun hb hnil => ?_, fun hne => ?_⟩
  · have hle := hb.buffer
    rw [Buffer.Fits, hreach, if_pos hnil] at hle
    omega
  · -- the size of the header for a body is cut off with its text, so it fits in any case
    constructor
    · intro value hvalue
      simp only [requestBuffers] at hvalue
      split_ifs at hvalue
      · cases hvalue
        exact (contentLengthBuffer_spec _).1
      · cases hvalue
    · exact (resourceLocationBuffer_spec _).1
    · simp only [requestBuffers, addContentLength_eq]
      exact hheaders
    · rw [Buffer.Fits, hreach, if_neg hne, add_zero]
    · rw [hcontent, ← hsize, dstSize_requestBuffers]

/-- **A request is written inside its arrays**, whatever calls have built it, if and only if it has a
body. -/
theorem request_inBuffers_iff {request : HTTPRequest} (h : Built request) :
    (requestBuffers request).Exact ∧
        (requestBuffers request).buffer.content = (httpRequestStringify request).2 ↔
      request.body ≠ [] := by
  obtain ⟨hcontent, hexact⟩ := requestBuffers_exact_iff h.exactLength
  rw [and_iff_left hcontent, hexact]

/-- A request with two headers and a body. -/
theorem request_inBuffers_body :
    let request := httpRequestAddHeader
      { (httpRequestSetUrl {} (str "http://example.com/a?b")).toOption.getD {} with
        body := str "hello" } (str "Accept") (str "*/*")
    (requestBuffers request).Exact ∧
        (requestBuffers request).buffer.content = (httpRequestStringify request).2 ↔
      request.body ≠ [] :=
  request_inBuffers_iff (.addHeader (.setBody (@Built.setUrl {} _ (str "http://example.com/a?b")
    (.zero .http10 .get) (by rfl)) _) _ _)

/-- Without a body one byte is written behind the buffer. -/
theorem not_request_inBuffers_get : ∃ request,
    httpRequestSetUrl {} (str "http://example.com/") = .ok request ∧ Built request ∧
      (requestBuffers request).buffer.reach = (requestBuffers request).buffer.size + 1 ∧
      ¬ (requestBuffers request).Exact := by
  have hnot (b : RequestBuffers) (h : b.buffer.reach = b.buffer.size + 1) : ¬ b.Exact := by
    intro hexact
    have hle := hexact.buffer
    rw [Buffer.Fits, h] at hle
    omega
  have hreach : (requestBuffers ((httpRequestSetUrl {}
      (str "http://example.com/")).toOption.getD {})).buffer.reach = (requestBuffers
      ((httpRequestSetUrl {} (str "http://example.com/")).toOption.getD {})).buffer.size + 1 := by
    decide
  exact ⟨_, rfl, @Built.setUrl {} _ (str "http://example.com/") (.zero .http10 .get) rfl, hreach,
    hnot _ hreach⟩

end Unalix
