import Unalix.Http.Response

/-!
# Parsing a rendered response

`renderResponse` writes a response in the form in which servers send it. `parse_http_response`
gives it back (`parseHttpResponse_renderResponse`): the delimiters it looks for occur in the status
line in their order, a header ends where its line ends, and its name ends at the first `:`, for no
safe name contains one. What the body consists of is of no account.
-/

namespace Unalix

open CString Ascii Outcome

/-! ## Rendering -/

/-- The line that begins a response. -/
def statusLine (version : HTTPVersion) (code : ℤ) (reason : Bytes) : Bytes :=
  protocolName ++ [slash] ++ httpVersionStringify version ++ [space] ++ decimal code.toNat ++
    [space] ++ reason

/-- A response as it is sent. -/
def renderResponse (version : HTTPVersion) (code : ℤ) (reason : Bytes)
    (headers : List HTTPHeader) (body : Bytes) : Bytes :=
  statusLine version code reason ++ crlf ++ crlf.intercalate (headers.map headerLine) ++
    crlfcrlf ++ body

/-- A reason phrase is a text on one line. -/
structure ReasonOk (reason : Bytes) : Prop where
  cr : cr ∉ reason
  lf : lf ∉ reason
  nul : 0 ∉ reason

/-- A header that can be sent and received. -/
structure HeaderOk (header : HTTPHeader) : Prop where
  safe : SafeHeader header
  key : header.key ≠ []
  value : header.value ≠ []

/-! ## Headers -/

theorem colon_not_mem_of_headerNameSafe {s : Bytes} (h : headerNameSafe s = true) :
    colon ∉ s := fun hc => absurd (headerNameSafe_iff.1 h colon hc) (by decide)

theorem nul_not_mem_headerLine {header : HTTPHeader} (h : SafeHeader header) :
    0 ∉ headerLine header := by
  have hkey : 0 ∉ header.key := fun hc =>
    absurd (headerNameSafe_iff.1 h.name 0 hc) (by decide)
  have hvalue : 0 ∉ header.value := fun hc =>
    absurd (headerValueSafe_iff.1 h.value 0 hc) (by decide)
  have hseparator : 0 ∉ headerSeparator := by decide
  simp [headerLine, hkey, hvalue, hseparator]

/-- A line is read up to its end `e`. -/
theorem parseHeader_headerLine {header : HTTPHeader} (h : HeaderOk header) (obj : HTTPHeaders)
    (e : Bytes) : parseHeader obj (headerLine header ++ e) e =
      .ok (httpHeadersAdd obj header.key header.value) := by
  have hcolon := colon_not_mem_of_headerNameSafe h.safe.name
  have hassoc : headerLine header ++ e =
      header.key ++ (headerSeparator ++ (header.value ++ e)) := by
    simp [headerLine]
  have hfind : strstr (headerLine header ++ e) headerSeparator =
      some (headerSeparator ++ (header.value ++ e)) := by
    rw [hassoc]
    exact strstr_cut hcolon
  have hkey : 0 < header.key.length := List.length_pos_iff.2 h.key
  have hvalue : 0 < header.value.length := List.length_pos_iff.2 h.value
  have hle : ¬ (headerSeparator ++ (header.value ++ e)).length < e.length := by
    simp only [List.length_append]
    omega
  simp only [parseHeader, hfind, if_neg hle]
  rw [hassoc, checkedSize_append]
  simp only [ok_bind, List.take_left, List.drop_left, checkedSize_append, h.safe.name,
    h.safe.value, Bool.not_true, Bool.false_eq_true, if_false, pure_eq,
    if_neg (show ¬ header.key.length < 1 by omega),
    if_neg (show ¬ header.value.length < 1 by omega)]

/-- **The headers are read one by one**, in their order. -/
theorem parseHeaders_headerLines {headers : List HTTPHeader} (hne : headers ≠ [])
    (h : ∀ header ∈ headers, HeaderOk header) (obj : HTTPHeaders) :
    parseHeaders obj (crlf.intercalate (headers.map headerLine)) =
      .ok (addHeaders obj headers) := by
  induction headers generalizing obj with
  | nil => exact absurd rfl hne
  | cons header headers ih =>
    obtain ⟨hheader, hheaders⟩ := List.forall_mem_cons.1 h
    have hcr := hheader.safe.cr_not_mem
    cases headers with
    | nil =>
      rw [List.map_singleton, List.intercalate_singleton, parseHeaders]
      have hnone : strstr (headerLine header) crlf = none :=
        strstr_eq_none_iff.2 fun hin => hcr (hin.subset (by simp [crlf]))
      split
      · have := parseHeader_headerLine hheader obj []
        rwa [List.append_nil] at this
      · rename_i hsome
        rw [hnone] at hsome
        cases hsome
    | cons next headers =>
      have hfind : strstr (headerLine header ++ (crlf ++
          crlf.intercalate ((next :: headers).map headerLine))) crlf =
          some (crlf ++ crlf.intercalate ((next :: headers).map headerLine)) :=
        strstr_cut hcr
      rw [List.map_cons, List.map_cons, List.intercalate_cons_cons, List.append_assoc,
        ← List.map_cons, parseHeaders]
      split
      · rename_i hnone
        rw [hfind] at hnone
        cases hnone
      · rename_i headerEnd hsome
        rw [hfind] at hsome
        obtain rfl := Option.some.inj hsome
        rw [parseHeader_headerLine hheader, ok_bind, List.drop_left, ih (by simp) hheaders]
        rfl

/-! ## The status line -/

theorem parseVersion_stringify (version : HTTPVersion) :
    parseVersion (httpVersionStringify version) = .ok version := by
  cases version <;> decide

/-- A known code is printed with three digits. -/
theorem length_decimal_of_known {code : ℤ} (h : httpStatusStringify code ≠ none) :
    0 ≤ code ∧ code < 1000 ∧ (decimal code.toNat).length = 3 := by
  have hall : ∀ status ∈ httpStatusMessages, 0 ≤ status.1 ∧ status.1 < 1000 ∧
      (decimal status.1.toNat).length = 3 := by decide
  unfold httpStatusStringify at h
  rw [ne_eq, Option.map_eq_none_iff] at h
  obtain ⟨status, hstatus⟩ := Option.ne_none_iff_exists'.1 h
  have hcode : status.1 = code := by simpa using List.find?_some hstatus
  rw [← hcode]
  exact hall status (List.mem_of_find?_eq_some hstatus)

theorem parseStatus_decimal {code : ℤ} (h : httpStatusStringify code ≠ none) :
    parseStatus (decimal code.toNat) =
      .ok { code := code, message := httpStatusStringify code } := by
  obtain ⟨hpos, hlt, hlength⟩ := length_decimal_of_known h
  have hnumeric : isnumeric (decimal code.toNat) = true :=
    isnumeric_iff.2 (isdigit_decimal code.toNat)
  have hvalue : atoi (decimal code.toNat) = code := by
    rw [atoi_of_lt (isdigit_decimal _), digitsValue_decimal]
    · omega
    · rw [digitsValue_decimal]
      omega
  obtain ⟨message, hmessage⟩ := Option.ne_none_iff_exists'.1 h
  simp only [parseStatus, hlength, hnumeric, hvalue, hmessage, ne_eq, not_true_eq_false,
    Bool.not_true, Bool.false_eq_true, if_false]

/-- A control character of the status line would be one of its reason phrase. -/
theorem not_mem_statusLine {c : UInt8} {reason : Bytes} (hc : c = cr ∨ c = 0) (h : c ∉ reason)
    (version : HTTPVersion) (code : ℤ) : c ∉ statusLine version code reason := by
  have hfixed : c ∉ protocolName ∧ c ≠ slash ∧ c ≠ space := by
    rcases hc with rfl | rfl <;> decide
  have hversion : c ∉ httpVersionStringify version := by
    rcases hc with rfl | rfl <;> cases version <;> decide
  have hcode : c ∉ decimal code.toNat := by
    intro hd
    have := isdigit_decimal _ c hd
    rcases hc with rfl | rfl <;> exact absurd this (by decide)
  simp [statusLine, hfixed, hversion, hcode, h]

/-- The head of a rendered response is read by its parts. -/
theorem parseHead_render {version : HTTPVersion} {code : ℤ} {reason : Bytes}
    {headers : List HTTPHeader} (hcode : httpStatusStringify code ≠ none)
    (hreason : ReasonOk reason) (hne : headers ≠ [])
    (h : ∀ header ∈ headers, HeaderOk header) (obj : HTTPResponse) :
    parseHead obj (statusLine version code reason ++
        (crlf ++ crlf.intercalate (headers.map headerLine))) =
      .ok { obj with
        version := version
        status := { code := code, message := httpStatusStringify code }
        headers := addHeaders obj.headers headers } := by
  set lines := crlf.intercalate (headers.map headerLine) with hlines
  have hcrlf := @strstr_cut _ _ cr [lf] _ lines (not_mem_statusLine (.inl rfl) hreason.cr version code)
  have hslash : slash ∉ protocolName := by decide
  have hversion : space ∉ httpVersionStringify version := by cases version <;> decide
  have hdigits : space ∉ decimal code.toNat := fun hc =>
    absurd (isdigit_decimal _ space hc) (by decide)
  have hhead : statusLine version code reason ++ (crlf ++ lines) =
      protocolName ++ slash :: (httpVersionStringify version ++
        space :: (decimal code.toNat ++ space :: (reason ++ (crlf ++ lines)))) := by
    simp [statusLine]
  have hfind : strstr (statusLine version code reason ++ (crlf ++ lines)) crlf =
      some (crlf ++ lines) := hcrlf
  rw [parseHead, hfind, hhead, strstr_singleton_cut hslash]
  simp only [deref, ok_bind, List.drop_one, List.tail_cons, strstr_singleton_cut hversion,
    checkedSize_append, List.take_left, parseVersion_stringify, strstr_singleton_cons_self,
    strstr_singleton_cut hdigits, parseStatus_decimal hcode, List.drop_left]
  rw [hlines, parseHeaders_headerLines hne h]
  rfl

/-! ## The response -/

/-- **A rendered response is parsed back**, whatever bytes its body consists of. -/
theorem parseHttpResponse_renderResponse (version : HTTPVersion) (code : ℤ) (reason body : Bytes)
    (headers : List HTTPHeader) (hcode : httpStatusStringify code ≠ none)
    (hreason : ReasonOk reason) (hne : headers ≠ [])
    (h : ∀ header ∈ headers, HeaderOk header) :
    ∃ response, parseHttpResponse {} (renderResponse version code reason headers body) =
        .ok response ∧
      response.version = version ∧
      response.status = { code := code, message := httpStatusStringify code } ∧
      response.headers.items = headers ∧ response.body = body := by
  set head := statusLine version code reason ++
    (crlf ++ crlf.intercalate (headers.map headerLine)) with hhead
  have hlines : headers.map headerLine ≠ [] := by simpa using hne
  have hjoin : head = crlf.intercalate (statusLine version code reason ::
      headers.map headerLine) := by
    obtain ⟨l, ls, hl⟩ := List.exists_cons_of_ne_nil hlines
    rw [hhead, hl, List.intercalate_cons_cons, List.append_assoc]
  have hbuffer : renderResponse version code reason headers body =
      head ++ (crlfcrlf ++ body) := by
    simp [renderResponse, hhead]
  have hnul : 0 ∉ head := by
    have hstatus := not_mem_statusLine (.inr rfl) hreason.nul version code
    have hheaders : 0 ∉ crlf.intercalate (headers.map headerLine) := fun hm => by
      rcases mem_intercalate hm with hm | ⟨l, hl, hm⟩
      · exact absurd hm (by decide)
      · obtain ⟨header, hheader, rfl⟩ := List.mem_map.1 hl
        exact nul_not_mem_headerLine (h header hheader).safe hm
    have hcrlf : 0 ∉ crlf := by decide
    simp [hhead, hstatus, hheaders, hcrlf]
  have hfind : strstr (head ++ crlfcrlf) crlfcrlf = some crlfcrlf := by
    rw [hjoin]
    refine strstr_emptyLine cr_ne_lf (by simp) (fun l hl => ?_) []
    rcases List.mem_cons.1 hl with rfl | hl
    · refine ⟨by simp [statusLine], fun hin => ?_⟩
      exact not_mem_statusLine (.inl rfl) hreason.cr version code (hin.subset (by simp))
    · obtain ⟨header, hheader, rfl⟩ := List.mem_map.1 hl
      refine ⟨headerLine_ne_nil header, fun hin => ?_⟩
      exact (h header hheader).safe.cr_not_mem (hin.subset (by simp))
  rw [hbuffer, parseHttpResponse_cut hnul hfind, hhead, parseHead_render hcode hreason hne h]
  refine ⟨_, rfl, rfl, rfl, ?_, ?_⟩
  · simp
  · rcases body with _ | ⟨c, body⟩ <;> simp

/-- A header whose value holds delimiters, and a body that holds an empty line and a NUL. -/
theorem parseHttpResponse_renderResponse_example :
    ∃ response, parseHttpResponse {} (renderResponse .http11 301 (str "Moved")
        [⟨str "Location", str "http://a.b/c: d"⟩] (crlfcrlf ++ [0])) = .ok response ∧
      response.version = .http11 ∧
      response.status = { code := 301, message := httpStatusStringify 301 } ∧
      response.headers.items = [⟨str "Location", str "http://a.b/c: d"⟩] ∧
      response.body = crlfcrlf ++ [0] := by
  apply parseHttpResponse_renderResponse
  · decide
  · exact ⟨by decide, by decide, by decide⟩
  · simp
  · simp only [List.mem_singleton, forall_eq]
    exact ⟨⟨by decide, by decide⟩, by decide, by decide⟩

end Unalix
