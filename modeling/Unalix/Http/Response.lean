import Unalix.Http.Request

/-!
# The response parser (`http.c`)

`parse_http_response` cuts a received buffer at its first empty line, reads the status line and
the headers before it and keeps the rest as the body. It looks for one delimiter after the other
and calculates with the pointer it gets, so a delimiter that is missing is a null pointer in
arithmetic: `deref` and `checkedSize` mark the places. The loop over the headers is the one part
that tests its pointers, and it never faults (`parseHeaders_returns`); the parser as a whole
returns exactly on the buffers of `SafeHead` (`parseHttpResponse_returns_iff`).
-/

namespace Unalix

open CString Ascii Outcome

/-! ## Status codes -/

/-- The codes of `enum HTTPStatusCode` and their messages. -/
def httpStatusMessages : List (ℤ × String) :=
  [(100, "Continue"), (101, "Switching Protocols"), (102, "Processing"), (103, "Early Hints"),
   (200, "OK"), (201, "Created"), (202, "Accepted"), (203, "Non-Authoritative Information"),
   (204, "No Content"), (205, "Reset Content"), (206, "Partial Content"), (207, "Multi-Status"),
   (208, "Already Reported"), (226, "IM Used"), (300, "Multiple Choices"),
   (301, "Moved Permanently"), (302, "Found"), (303, "See Other"), (304, "Not Modified"),
   (305, "Use Proxy"), (307, "Temporary Redirect"), (308, "Permanent Redirect"),
   (400, "Bad Request"), (401, "Unauthorized"), (402, "Payment Required"), (403, "Forbidden"),
   (404, "Not Found"), (405, "Method Not Allowed"), (406, "Not Acceptable"),
   (407, "Proxy Authentication Required"), (408, "Request Timeout"), (409, "Conflict"),
   (410, "Gone"), (411, "Length Required"), (412, "Precondition Failed"),
   (413, "Request Entity Too Large"), (414, "Request-URI Too Long"),
   (415, "Unsupported Media Type"), (416, "Requested Range Not Satisfiable"),
   (417, "Expectation Failed"), (418, "I'm a Teapot"), (421, "Misdirected Request"),
   (422, "Unprocessable Entity"), (423, "Locked"), (424, "Failed Dependency"), (425, "Too Early"),
   (426, "Upgrade Required"), (428, "Precondition Required"), (429, "Too Many Requests"),
   (431, "Request Header Fields Too Large"), (451, "Unavailable For Legal Reasons"),
   (500, "Internal Server Error"), (501, "Not Implemented"), (502, "Bad Gateway"),
   (503, "Service Unavailable"), (504, "Gateway Timeout"), (505, "HTTP Version Not Supported"),
   (506, "Variant Also Negotiates"), (507, "Insufficient Storage"), (508, "Loop Detected"),
   (510, "Not Extended"), (511, "Network Authentication Required")]

/-- `http_status_stringify`: the message of a known code. -/
def httpStatusStringify (statusCode : ℤ) : Option Bytes :=
  (httpStatusMessages.find? fun status => status.1 = statusCode).map fun status => str status.2

/-- `struct HTTPStatus`. -/
structure HTTPStatus where
  code : ℤ := 0
  message : Option Bytes := none
  deriving DecidableEq, Repr

/-- `struct HTTPResponse`; the body is its content. -/
structure HTTPResponse where
  status : HTTPStatus := {}
  version : HTTPVersion := .http10
  headers : HTTPHeaders := {}
  body : Bytes := []
  deriving DecidableEq, Repr

/-! ## Pointers -/

/-- Arithmetic on a pointer that may be null. -/
def deref (pointer : Option Bytes) : Outcome Bytes :=
  match pointer with
  | none => .error (.fault .nullPointer)
  | some pointer => .ok pointer

/-- The difference `stop - start` of two pointers as a size. -/
def checkedSize (start stop : Bytes) : Outcome ℕ :=
  if start.length < stop.length then .error (.fault .negativeSize)
  else .ok (start.length - stop.length)

/-- The bytes of a buffer from a position on, up to the end of the buffer. -/
def bodyFrom (buffer : Bytes) (bodyStart : ℕ) : Outcome Bytes :=
  if buffer.length < bodyStart then .error (.fault .negativeSize)
  else .ok (buffer.drop bodyStart)

/-! ## The parser -/

/-- The checks on one header between `headerStart` and `headerEnd`. -/
def parseHeader (obj : HTTPHeaders) (headerStart headerEnd : Bytes) : Outcome HTTPHeaders :=
  match strstr headerStart headerSeparator with
  | none => fail .httpMalformedHeader
  | some separator =>
    if separator.length < headerEnd.length then fail .httpMalformedHeader
    else do
      let keySize ← checkedSize headerStart separator
      if keySize < 1 then fail .httpMissingHeaderName
      else do
        let key := headerStart.take keySize
        if !headerNameSafe key then fail .httpHeaderContainsInvalidCharacter
        else do
          let separator := separator.drop headerSeparator.length
          let valueSize ← checkedSize separator headerEnd
          if valueSize < 1 then fail .httpMissingHeaderValue
          else do
            let value := separator.take valueSize
            if !headerValueSafe value then fail .httpHeaderContainsInvalidCharacter
            else return httpHeadersAdd obj key value

/-- The loop over the headers, each of which ends at the next CR LF or at the end. -/
def parseHeaders (obj : HTTPHeaders) (headerStart : Bytes) : Outcome HTTPHeaders :=
  match _h : strstr headerStart crlf with
  | none => parseHeader obj headerStart []
  | some headerEnd => do
    let obj ← parseHeader obj headerStart headerEnd
    parseHeaders obj (headerEnd.drop crlf.length)
termination_by headerStart.length
decreasing_by
  have := length_le_of_strstr ‹strstr headerStart crlf = some headerEnd›
  simp only [crlf, List.length_cons, List.length_nil, List.length_drop] at *
  omega

/-- The version between the first `/` and the space after it. -/
def parseVersion (version : Bytes) : Outcome HTTPVersion :=
  if version = httpVersionStringify .http10 then .ok .http10
  else if version = httpVersionStringify .http11 then .ok .http11
  else fail .httpUnsupportedVersion

/-- The status code: three digits of a known code. -/
def parseStatus (statusCode : Bytes) : Outcome HTTPStatus :=
  if statusCode.length ≠ 3 then fail .httpMalformedStatusCode
  else if !isnumeric statusCode then fail .httpMalformedStatusCode
  else match httpStatusStringify (atoi statusCode) with
    | none => fail .httpUnknownStatusCode
    | some message => .ok { code := atoi statusCode, message := some message }

/-- The part of `parse_http_response` that reads the bytes before the first empty line. -/
def parseHead (obj : HTTPResponse) (headers : Bytes) : Outcome HTTPResponse := do
  let httpVersionStart ← deref (strstr headers [slash])
  let httpVersionStart := httpVersionStart.drop 1
  let httpVersionEnd ← deref (strstr httpVersionStart [space])
  let httpVersionSize ← checkedSize httpVersionStart httpVersionEnd
  let version ← parseVersion (httpVersionStart.take httpVersionSize)
  let statusCodeStart ← deref (strstr httpVersionEnd [space])
  let statusCodeStart := statusCodeStart.drop 1
  let statusCodeEnd ← deref (strstr statusCodeStart [space])
  let statusCodeSize ← checkedSize statusCodeStart statusCodeEnd
  let status ← parseStatus (statusCodeStart.take statusCodeSize)
  let headerStart ← deref (strstr headers crlf)
  let items ← parseHeaders obj.headers (headerStart.drop crlf.length)
  return { obj with version := version, status := status, headers := items }

/-- `parse_http_response`; after a failure the response is only released. -/
def parseHttpResponse (obj : HTTPResponse) (buffer : Bytes) : Outcome HTTPResponse := do
  let data := cString buffer
  let separator ← deref (strstr data crlfcrlf)
  let headersSize ← checkedSize data separator
  let body ← bodyFrom buffer (headersSize + crlfcrlf.length)
  let obj ← parseHead obj (data.take headersSize)
  return { obj with body := if 0 < body.length then body else obj.body }

/-! ## Lines that are parsed -/

theorem checkedSize_append (x stop : Bytes) : checkedSize (x ++ stop) stop = .ok x.length := by
  simp [checkedSize]

theorem parseVersion_returns (version : Bytes) : Returns (parseVersion version) := by
  unfold parseVersion
  split_ifs <;> simp

theorem parseStatus_returns (statusCode : Bytes) : Returns (parseStatus statusCode) := by
  unfold parseStatus
  split_ifs
  · simp
  · simp
  · split <;> simp

/-! ## The loop over the headers -/

/-- A header separator that begins before the end of a header lies before that end. -/
theorem headerEnd_le_drop {headerStart separator headerEnd : Bytes}
    (hs : strstr headerStart headerSeparator = some separator) (hsuf : headerEnd <:+ headerStart)
    (hhead : headerEnd = [] ∨ headerEnd.head? = some cr)
    (hle : headerEnd.length ≤ separator.length) :
    headerEnd.length ≤ (separator.drop headerSeparator.length).length := by
  obtain ⟨a, rfl, ⟨rest, rfl⟩, -⟩ := exists_of_strstr hs
  rcases hhead with rfl | hcr
  · simp
  · have hend : headerEnd <:+ headerSeparator ++ rest :=
      List.suffix_of_suffix_length_le hsuf (List.suffix_append a _) hle
    rw [List.drop_left]
    -- the end is at a CR, so it is none of the two characters of the separator
    rcases List.suffix_cons_iff.1 hend with h | h
    · rw [h] at hcr
      exact absurd (Option.some.inj hcr) (by decide)
    · rcases List.suffix_cons_iff.1 h with h | h
      · rw [h] at hcr
        exact absurd (Option.some.inj hcr) (by decide)
      · exact h.length_le

theorem parseHeader_returns {obj : HTTPHeaders} {headerStart headerEnd : Bytes}
    (hsuf : headerEnd <:+ headerStart) (hhead : headerEnd = [] ∨ headerEnd.head? = some cr) :
    Returns (parseHeader obj headerStart headerEnd) := by
  unfold parseHeader
  rcases hs : strstr headerStart headerSeparator with _ | separator
  · simp
  · have hle := (length_le_of_strstr hs).2
    have hkey : checkedSize headerStart separator =
        .ok (headerStart.length - separator.length) := if_neg (by omega)
    simp only [hkey, ok_bind]
    split_ifs with hlt hsize hname
    · simp
    · simp
    · simp
    · have hdrop := headerEnd_le_drop hs hsuf hhead (by omega)
      have hvalue : checkedSize (separator.drop headerSeparator.length) headerEnd =
          .ok ((separator.drop headerSeparator.length).length - headerEnd.length) :=
        if_neg (by omega)
      simp only [hvalue, ok_bind]
      split_ifs <;> simp

/-- **The loop over the headers returns** on every text, for it tests each of its pointers. -/
theorem parseHeaders_returns (obj : HTTPHeaders) (headerStart : Bytes) :
    Returns (parseHeaders obj headerStart) := by
  induction hn : headerStart.length using Nat.strong_induction_on generalizing obj headerStart with
  | _ n ih =>
    rw [parseHeaders]
    split
    · exact parseHeader_returns (List.nil_suffix) (.inl rfl)
    · rename_i headerEnd hend
      obtain ⟨a, rfl, ⟨rest, rfl⟩, -⟩ := exists_of_strstr hend
      rw [returns_bind_iff]
      refine ⟨parseHeader_returns (List.suffix_append a _) (.inr rfl), fun obj' _ => ?_⟩
      rw [List.drop_left]
      refine ih rest.length ?_ obj' rest rfl
      rw [← hn]
      simp only [List.length_append, crlf, List.length_cons]
      omega

/-! ## The status line -/

/-- A version that the parser knows. -/
def KnownVersion (version : Bytes) : Prop :=
  version = httpVersionStringify .http10 ∨ version = httpVersionStringify .http11

/-- A status code of three digits that has a message. -/
def KnownStatus (statusCode : Bytes) : Prop :=
  statusCode.length = 3 ∧ isnumeric statusCode = true ∧
    httpStatusStringify (atoi statusCode) ≠ none

theorem exists_parseVersion_iff {version : Bytes} :
    (∃ v, parseVersion version = .ok v) ↔ KnownVersion version := by
  unfold parseVersion KnownVersion
  split_ifs with h₁ h₂
  · exact iff_of_true ⟨_, rfl⟩ (.inl h₁)
  · exact iff_of_true ⟨_, rfl⟩ (.inr h₂)
  · exact iff_of_false (fun ⟨_, h⟩ => fail_ne_ok _ _ h) (not_or.2 ⟨h₁, h₂⟩)

theorem exists_parseStatus_iff {statusCode : Bytes} :
    (∃ status, parseStatus statusCode = .ok status) ↔ KnownStatus statusCode := by
  unfold parseStatus KnownStatus
  split_ifs with h₁ h₂
  · exact iff_of_false (fun ⟨_, h⟩ => fail_ne_ok _ _ h) fun h => h₁ h.1
  · exact iff_of_false (fun ⟨_, h⟩ => fail_ne_ok _ _ h) fun h => by simp [h.2.1] at h₂
  · simp only [Bool.not_eq_true', Bool.not_eq_false] at h₂
    rw [not_not] at h₁
    rw [and_iff_right h₁, and_iff_right h₂]
    split
    · rename_i hnone
      exact iff_of_false (fun ⟨_, h⟩ => fail_ne_ok _ _ h) fun h => h hnone
    · rename_i hsome
      exact iff_of_true ⟨_, rfl⟩ (by simp [hsome])

/-- The text between the first `/` and the space after it. -/
def versionText (head : Bytes) : Bytes := before space (after slash head)

/-- The text after that space. -/
def statusPart (head : Bytes) : Bytes := after space (after slash head)

/-- A head whose delimiters are there when the parser calculates with their positions. -/
structure SafeHeadText (head : Bytes) : Prop where
  slash : slash ∈ head
  space : space ∈ after Unalix.slash head
  status : KnownVersion (versionText head) → Unalix.space ∈ statusPart head
  headers : KnownVersion (versionText head) →
    KnownStatus (before Unalix.space (statusPart head)) → crlf <:+: head

/-- A buffer with an empty line before its first NUL and a safe head before that line. -/
def SafeHead (buffer : Bytes) : Prop :=
  crlfcrlf <:+: cString buffer ∧ SafeHeadText (headOf (cString buffer))

theorem deref_eq_ok {p : Option Bytes} {s : Bytes} : deref p = .ok s ↔ p = some s := by
  cases p <;> simp [deref]

theorem returns_deref_iff {p : Option Bytes} : Returns (deref p) ↔ p ≠ none := by
  cases p <;> simp [deref]

/-- Looking for a character and calculating with its position. -/
theorem returns_deref_bind_iff {β : Type} {c : UInt8} {s : Bytes} {f : Bytes → Outcome β} :
    Returns (deref (strstr s [c]) >>= f) ↔ c ∈ s ∧ Returns (f (c :: after c s)) := by
  rw [strstr_singleton_eq]
  split_ifs with hc
  · simp [deref, hc]
  · simp [deref, hc, Returns]

/-- The size of the text before a character that was found. -/
theorem checkedSize_before {c : UInt8} {s : Bytes} (hc : c ∈ s) :
    checkedSize s (c :: after c s) = .ok (before c s).length ∧
      s.take (before c s).length = before c s := by
  have hcut := before_append_cut hc
  constructor
  · conv_lhs => rw [← hcut]
    rw [after_cut (CString.not_mem_before c s), checkedSize_append]
  · conv_lhs => rw [← hcut]
    exact List.take_left' (by rw [hcut])

/-- What is left to read after the status code: the headers, if there are any. -/
theorem returns_headers_iff {β : Type} {obj : HTTPHeaders} {head : Bytes}
    {f : HTTPHeaders → Outcome β} (hf : ∀ items, Returns (f items)) :
    Returns (deref (strstr head crlf) >>= fun headerStart =>
      parseHeaders obj (headerStart.drop crlf.length) >>= f) ↔ crlf <:+: head := by
  rw [returns_bind_iff, returns_deref_iff]
  constructor
  · rintro ⟨h, -⟩
    by_contra hno
    exact h (strstr_eq_none_iff.2 hno)
  · intro h
    refine ⟨fun hnone => strstr_eq_none_iff.1 hnone h, fun headerStart _ => ?_⟩
    rw [returns_bind_iff]
    exact ⟨parseHeaders_returns _ _, fun items _ => hf items⟩

/-- What is left to read after the version. -/
theorem returns_status_iff {β : Type} {part : Bytes} {f : HTTPStatus → Outcome β} :
    Returns (deref (strstr (space :: part) [space]) >>= fun statusCodeStart =>
      deref (strstr (statusCodeStart.drop 1) [space]) >>= fun statusCodeEnd =>
      checkedSize (statusCodeStart.drop 1) statusCodeEnd >>= fun statusCodeSize =>
      parseStatus ((statusCodeStart.drop 1).take statusCodeSize) >>= f) ↔
    space ∈ part ∧ ∀ status, parseStatus (before space part) = .ok status →
      Returns (f status) := by
  rw [strstr_singleton_cons_self]
  simp only [deref, ok_bind, List.drop_one, List.tail_cons]
  change Returns (deref (strstr part [space]) >>= _) ↔ _
  rw [returns_deref_bind_iff]
  refine and_congr_right fun hspace => ?_
  obtain ⟨hsize, htake⟩ := checkedSize_before hspace
  rw [hsize, ok_bind, htake, returns_bind_iff]
  exact and_iff_right (parseStatus_returns _)

theorem parseHead_returns_iff (obj : HTTPResponse) (head : Bytes) :
    Returns (parseHead obj head) ↔ SafeHeadText head := by
  have hread : Returns (parseHead obj head) ↔ slash ∈ head ∧ space ∈ after slash head ∧
      ∀ version, parseVersion (versionText head) = .ok version → space ∈ statusPart head ∧
        ∀ status, parseStatus (before space (statusPart head)) = .ok status →
          crlf <:+: head := by
    rw [parseHead, returns_deref_bind_iff]
    refine and_congr_right fun _ => ?_
    rw [List.drop_one, List.tail_cons, returns_deref_bind_iff]
    refine and_congr_right fun hspace => ?_
    obtain ⟨hsize, htake⟩ := checkedSize_before hspace
    rw [hsize, ok_bind, htake, returns_bind_iff, and_iff_right (parseVersion_returns _)]
    refine forall_congr' fun version => imp_congr_right fun _ => ?_
    rw [returns_status_iff]
    refine and_congr_right fun _ => forall_congr' fun status => imp_congr_right fun _ => ?_
    exact returns_headers_iff fun items => returns_ok _
  rw [hread]
  constructor
  · rintro ⟨hslash, hspace, h⟩
    refine ⟨hslash, hspace, fun hv => ?_, fun hv hs => ?_⟩
    · obtain ⟨version, hversion⟩ := exists_parseVersion_iff.2 hv
      exact (h version hversion).1
    · obtain ⟨version, hversion⟩ := exists_parseVersion_iff.2 hv
      obtain ⟨status, hstatus⟩ := exists_parseStatus_iff.2 hs
      exact (h version hversion).2 status hstatus
  · intro h
    refine ⟨h.slash, h.space, fun version hversion => ?_⟩
    have hv := exists_parseVersion_iff.1 ⟨version, hversion⟩
    refine ⟨h.status hv, fun status hstatus => ?_⟩
    exact h.headers hv (exists_parseStatus_iff.1 ⟨status, hstatus⟩)

/-- **What is read from a head** that is accepted. -/
theorem parseHead_eq_ok {obj obj' : HTTPResponse} {head : Bytes} (h : parseHead obj head = .ok obj') :
    parseVersion (versionText head) = .ok obj'.version ∧
      parseStatus (before space (statusPart head)) = .ok obj'.status ∧
      ∃ headerStart, strstr head crlf = some headerStart ∧
        parseHeaders obj.headers (headerStart.drop crlf.length) = .ok obj'.headers ∧
        obj'.body = obj.body := by
  simp only [parseHead, bind_eq_ok, deref_eq_ok] at h
  obtain ⟨s₁, h₁, s₂, h₂, n₂, hn₂, version, hversion, s₃, h₃, s₄, h₄, n₄, hn₄, status, hstatus,
    headerStart, hstart, items, hitems, hreturn⟩ := h
  rw [strstr_singleton_eq] at h₁ h₂
  split_ifs at h₁ h₂ with hslash hspace
  obtain rfl := Option.some.inj h₁
  obtain rfl := Option.some.inj h₂
  rw [strstr_singleton_cons_self] at h₃
  obtain rfl := Option.some.inj h₃
  simp only [List.drop_one, List.tail_cons] at h₂ hn₂ hversion h₄ hn₄ hstatus hspace
  obtain ⟨hsize, htake⟩ := checkedSize_before hspace
  rw [hsize] at hn₂
  obtain rfl := Except.ok.inj hn₂
  rw [htake] at hversion
  rw [strstr_singleton_eq] at h₄
  split_ifs at h₄ with hspace'
  obtain rfl := Option.some.inj h₄
  obtain ⟨hsize, htake⟩ := checkedSize_before hspace'
  rw [hsize] at hn₄
  obtain rfl := Except.ok.inj hn₄
  rw [htake] at hstatus
  rw [← Except.ok.inj hreturn]
  exact ⟨hversion, hstatus, headerStart, hstart, hitems, rfl⟩

/-! ## The whole parser -/

theorem returns_parseHttpResponse_iff_safeHead (obj : HTTPResponse) (buffer : Bytes) :
    Returns (parseHttpResponse obj buffer) ↔ SafeHead buffer := by
  rw [parseHttpResponse, SafeHead, headOf]
  rcases hfind : strstr (cString buffer) crlfcrlf with _ | separator
  · refine iff_of_false ?_ fun h => strstr_eq_none_iff.1 hfind h.1
    exact not_returns_fault _
  · obtain ⟨head, hdata, ⟨rest, rfl⟩, -⟩ := exists_of_strstr hfind
    have hinfix : crlfcrlf <:+: cString buffer := ⟨head, rest, by rw [hdata, List.append_assoc]⟩
    have hle := length_cString_le buffer
    rw [hdata, List.length_append, List.length_append] at hle
    have hbody : bodyFrom buffer (head.length + crlfcrlf.length) =
        .ok (buffer.drop (head.length + crlfcrlf.length)) := if_neg (by omega)
    have hcut : (cString buffer).take
        ((cString buffer).length - (crlfcrlf ++ rest).length) = head := by
      rw [hdata, List.length_append, Nat.add_sub_cancel, List.take_left]
    have htake : (cString buffer).take head.length = head := by
      rw [hdata, List.take_left]
    have hsize : checkedSize (cString buffer) (crlfcrlf ++ rest) = .ok head.length := by
      rw [hdata, checkedSize_append]
    rw [and_iff_right hinfix, ← parseHead_returns_iff obj]
    simp only [deref, ok_bind, hsize, hbody, htake, hcut, returns_bind_iff]
    exact and_iff_left fun _ _ => returns_ok _

/-- **`parse_http_response` is safe exactly on safe heads**: every pointer it calculates with is
there, and no size is negative, if and only if the buffer has one. -/
theorem parseHttpResponse_returns_iff (obj : HTTPResponse) (buffer : Bytes) :
    Returns (parseHttpResponse obj buffer) ↔ SafeHead buffer :=
  returns_parseHttpResponse_iff_safeHead obj buffer

/-- **The buffer is cut at its first empty line**, when no NUL stands before it. -/
theorem parseHttpResponse_cut {obj : HTTPResponse} {head : Bytes} (hnul : 0 ∉ head)
    (hfind : strstr (head ++ crlfcrlf) crlfcrlf = some crlfcrlf) (body : Bytes) :
    parseHttpResponse obj (head ++ (crlfcrlf ++ body)) = (do
      let obj ← parseHead obj head
      return { obj with body := if 0 < body.length then body else obj.body }) := by
  have hdata : cString (head ++ (crlfcrlf ++ body)) = head ++ (crlfcrlf ++ cString body) := by
    have hline : ∀ c ∈ head ++ crlfcrlf, decide (c ≠ 0) = true := by
      have hcrlf : 0 ∉ crlfcrlf := by decide
      exact ne_of_not_mem (by simp [hnul, hcrlf])
    rw [← List.append_assoc, cString, List.takeWhile_append_of_pos hline, List.append_assoc,
      cString]
  have hfind' : strstr (head ++ (crlfcrlf ++ cString body)) crlfcrlf =
      some (crlfcrlf ++ cString body) := by
    have := strstr_append_of_eq_some hfind (cString body)
    rwa [List.append_assoc] at this
  have hbody : bodyFrom (head ++ (crlfcrlf ++ body)) (head.length + crlfcrlf.length) =
      .ok body := by
    rw [bodyFrom, if_neg (by simp only [List.length_append]; omega), ← List.append_assoc,
      ← List.length_append, List.drop_left]
  rw [parseHttpResponse, hdata, hfind']
  simp only [deref, ok_bind, checkedSize_append, hbody, List.take_left]

/-- On a response without headers the parser calculates with a null pointer. -/
theorem not_returns_no_headers :
    ¬ Returns (parseHttpResponse {} (str "HTTP/1.1 200 OK\r\n\r\n")) := by
  have hfault : parseHttpResponse {} (str "HTTP/1.1 200 OK\r\n\r\n") =
      .error (.fault .nullPointer) := by decide
  rw [hfault]
  exact not_returns_fault _

end Unalix
