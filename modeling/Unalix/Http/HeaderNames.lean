import Unalix.Http.Rendering
import Unalix.Http.Redirect

/-!
# The case of header names (`http.c`)

A buffer that `parse_http_response` accepts is a first line, headers, an empty line and a body
(`exists_message`), and its headers are read as they are. Two messages whose header names differ in
the case of their letters are parsed alike up to these names (`Message.parse_eq`), but
`http_headers_get` compares names with `strcmp`: a header is found in both if its name is spelled
alike, and a `Location` of other letters is no redirection (`headerNames_spelled`).
-/

namespace Unalix

open CString Ascii Outcome

/-- `http_response_get_header`. -/
def httpResponseGetHeader (context : HTTPContext) (key : Bytes) : Option HTTPHeader :=
  httpHeadersGet context.response.headers key

/-! ## Messages -/

/-- A response in parts: what stands before its headers, the headers, and the body. -/
structure Message where
  first : Bytes
  headers : List HTTPHeader
  body : Bytes
  first_line : ¬ crlf <:+: first
  first_nul : 0 ∉ first
  headers_ne : headers ≠ []
  headers_ok : ∀ header ∈ headers, HeaderOk header

namespace Message

variable (M : Message)

/-- The lines of the headers. -/
def lines : Bytes := crlf.intercalate (M.headers.map headerLine)

/-- The part before the empty line. -/
def head : Bytes := M.first ++ (crlf ++ M.lines)

/-- The response as it is sent. -/
def text : Bytes := M.head ++ (crlfcrlf ++ M.body)

theorem nul_not_mem_head : 0 ∉ M.head := by
  have hlines : 0 ∉ M.lines := fun hm => by
    rcases mem_intercalate hm with hm | ⟨l, hl, hm⟩
    · exact absurd hm (by decide)
    · obtain ⟨header, hheader, rfl⟩ := List.mem_map.1 hl
      exact nul_not_mem_headerLine (M.headers_ok header hheader).safe hm
  have hcrlf : 0 ∉ crlf := by decide
  simp [head, M.first_nul, hlines, hcrlf]

theorem strstr_head : strstr (M.head ++ crlfcrlf) crlfcrlf = some crlfcrlf := by
  have hjoin : M.head = crlf.intercalate (M.first :: M.headers.map headerLine) := by
    obtain ⟨l, ls, hl⟩ := List.exists_cons_of_ne_nil M.headers_ne
    rw [head, lines, hl, List.map_cons, List.intercalate_cons_cons, List.append_assoc]
  rw [hjoin]
  refine strstr_emptyLine_cons cr_ne_lf M.first_line (fun l hl => ?_) []
  obtain ⟨header, hheader, rfl⟩ := List.mem_map.1 hl
  refine ⟨headerLine_ne_nil header, fun hin => ?_⟩
  exact (M.headers_ok header hheader).safe.cr_not_mem (hin.subset (by simp))

/-- Its headers are what follows the first line. -/
theorem strstr_first : strstr M.head crlf = some (crlf ++ M.lines) :=
  strstr_eq_some (List.prefix_append _ _) fun _ _ hbe he =>
    not_prefix_of_line cr_ne_lf M.first_line hbe he rfl

/-- **What is read of a message** that is accepted. -/
theorem parse_eq_ok {obj r : HTTPResponse} (h : parseHttpResponse obj M.text = .ok r) :
    parseVersion (versionText M.head) = .ok r.version ∧
      parseStatus (before space (statusPart M.head)) = .ok r.status ∧
      r.headers = addHeaders obj.headers M.headers ∧
      r.body = if 0 < M.body.length then M.body else obj.body := by
  rw [text, parseHttpResponse_cut M.nul_not_mem_head M.strstr_head, bind_eq_ok] at h
  obtain ⟨r₁, hhead, hr⟩ := h
  obtain ⟨hversion, hstatus, headerStart, hstart, hitems, hbody⟩ := parseHead_eq_ok hhead
  rw [strstr_first] at hstart
  obtain rfl := Option.some.inj hstart
  rw [List.drop_left, lines, parseHeaders_headerLines M.headers_ne M.headers_ok] at hitems
  obtain rfl := Except.ok.inj hr
  exact ⟨hversion, hstatus, (Except.ok.inj hitems).symm, by rw [hbody]⟩

/-- A rendered response. -/
def rendered (version : HTTPVersion) (code : ℤ) {reason : Bytes} (hreason : ReasonOk reason)
    {headers : List HTTPHeader} (hne : headers ≠ []) (h : ∀ header ∈ headers, HeaderOk header)
    (body : Bytes) : Message where
  first := statusLine version code reason
  headers := headers
  body := body
  first_line hin := not_mem_statusLine (.inl rfl) hreason.cr version code (hin.subset (by simp [crlf]))
  first_nul := not_mem_statusLine (.inr rfl) hreason.nul version code
  headers_ne := hne
  headers_ok := h

end Message

/-! ## Every accepted buffer is a message -/

/-- A header that is accepted is the text up to its end. -/
theorem parseHeader_eq_ok {obj obj' : HTTPHeaders} {line headerEnd : Bytes}
    (hend : headerEnd = [] ∨ headerEnd.head? = some cr)
    (h : parseHeader obj (line ++ headerEnd) headerEnd = .ok obj') :
    ∃ header, HeaderOk header ∧ line = headerLine header := by
  unfold parseHeader at h
  rcases hs : strstr (line ++ headerEnd) headerSeparator with _ | separator
  · rw [hs] at h
    exact absurd h (fail_ne_ok _ _)
  · obtain ⟨key, hstart, ⟨rest, rfl⟩, -⟩ := exists_of_strstr hs
    rw [hs] at h
    simp only at h
    split_ifs at h with hlt
    · exact absurd h (fail_ne_ok _ _)
    have hdrop := headerEnd_le_drop hs (List.suffix_append line headerEnd) hend (by omega)
    rw [List.drop_left] at hdrop
    -- the value is what lies between the separator and the end
    obtain ⟨value, rfl⟩ : headerEnd <:+ rest := by
      have hsuf : headerEnd <:+ (key ++ headerSeparator) ++ rest := by
        rw [List.append_assoc, ← hstart]
        exact List.suffix_append line headerEnd
      exact List.suffix_of_suffix_length_le hsuf (List.suffix_append _ rest) hdrop
    have hline : line = headerLine ⟨key, value⟩ := by
      rw [← List.append_assoc, ← List.append_assoc] at hstart
      exact List.append_cancel_right hstart
    rw [hstart, checkedSize_append] at h
    simp only [ok_bind, List.take_left, List.drop_left, checkedSize_append] at h
    split_ifs at h with hkey hname hvalue hsafe <;> try exact absurd h (fail_ne_ok _ _)
    rw [Bool.not_eq_true, Bool.not_eq_false'] at hname hsafe
    refine ⟨⟨key, value⟩, ⟨⟨hname, hsafe⟩, ?_, ?_⟩, hline⟩
    · exact List.length_pos_iff.1 (show 0 < key.length by omega)
    · exact List.length_pos_iff.1 (show 0 < value.length by omega)

/-- **Headers that are accepted** are lines between CR LF. -/
theorem parseHeaders_eq_ok {obj obj' : HTTPHeaders} {headerStart : Bytes}
    (h : parseHeaders obj headerStart = .ok obj') :
    ∃ headers, headers ≠ [] ∧ (∀ header ∈ headers, HeaderOk header) ∧
      headerStart = crlf.intercalate (headers.map headerLine) := by
  induction hn : headerStart.length using Nat.strong_induction_on generalizing obj headerStart with
  | _ n ih =>
    rw [parseHeaders] at h
    split at h
    · rw [← List.append_nil headerStart] at h
      obtain ⟨header, hok, hline⟩ := parseHeader_eq_ok (.inl rfl) h
      refine ⟨[header], by simp, by simpa using hok, ?_⟩
      rw [List.map_singleton, List.intercalate_singleton]
      exact hline
    · rename_i headerEnd hend
      obtain ⟨line, rfl, ⟨rest, rfl⟩, -⟩ := exists_of_strstr hend
      obtain ⟨obj₁, hfirst, hrest⟩ := bind_eq_ok.1 h
      obtain ⟨header, hok, rfl⟩ := parseHeader_eq_ok (.inr rfl) hfirst
      rw [List.drop_left] at hrest
      have hlt : rest.length < n := by
        rw [← hn]
        simp only [List.length_append, crlf, List.length_cons]
        omega
      obtain ⟨headers, hne, hheaders, rfl⟩ := ih rest.length hlt hrest rfl
      obtain ⟨next, headers, rfl⟩ := List.exists_cons_of_ne_nil hne
      refine ⟨header :: next :: headers, by simp, List.forall_mem_cons.2 ⟨hok, hheaders⟩, ?_⟩
      rw [List.map_cons, List.map_cons, List.map_cons, List.intercalate_cons_cons, List.append_assoc]

/-- **Every accepted buffer is a message.** -/
theorem exists_message {obj r : HTTPResponse} {buffer : Bytes}
    (h : parseHttpResponse obj buffer = .ok r) : ∃ M : Message, M.text = buffer := by
  simp only [parseHttpResponse, bind_eq_ok, deref_eq_ok] at h
  obtain ⟨separator, hseparator, size, hsize, -, -, r₁, hhead, -⟩ := h
  obtain ⟨head, hdata, ⟨rest, rfl⟩, -⟩ := exists_of_strstr hseparator
  obtain ⟨tail, htail⟩ : cString buffer <+: buffer := List.takeWhile_prefix _
  rw [hdata, checkedSize_append] at hsize
  obtain rfl := Except.ok.inj hsize
  rw [hdata, List.take_left] at hhead
  obtain ⟨-, -, headerStart, hstart, hheaders, -⟩ := parseHead_eq_ok hhead
  obtain ⟨first, rfl, ⟨lines, rfl⟩, hfirst⟩ := exists_of_strstr hstart
  rw [List.drop_left] at hheaders
  obtain ⟨headers, hne, hok, rfl⟩ := parseHeaders_eq_ok hheaders
  have hnul : 0 ∉ cString buffer := not_mem_before 0 buffer
  rw [hdata] at hnul
  have hline : ¬ crlf <:+: first := by
    rintro ⟨a, b, hab⟩
    refine hfirst a (crlf ++ b) (by rw [← hab, List.append_assoc]) (by simp [crlf]) ?_
    rw [List.append_assoc]
    exact List.prefix_append crlf _
  have hfirstNul : 0 ∉ first := fun hmem => hnul (by simp [hmem])
  refine ⟨⟨first, headers, rest ++ tail, hline, hfirstNul, hne, hok⟩, ?_⟩
  rw [← htail, hdata]
  simp only [Message.text, Message.head, Message.lines, List.append_assoc]

/-! ## Names in another case -/

/-- The same value under a name whose letters differ in case. -/
structure CaseVariant (header header' : HTTPHeader) : Prop where
  key : header.key.map lower = header'.key.map lower
  value : header.value = header'.value

instance : Std.Refl CaseVariant := ⟨fun _ => ⟨rfl, rfl⟩⟩

/-- Two buffers that differ only in the case of the letters of their header names. -/
def DifferInNameCase (buffer buffer' : Bytes) : Prop :=
  ∃ M M' : Message, M.text = buffer ∧ M'.text = buffer' ∧ M.first = M'.first ∧
    List.Forall₂ CaseVariant M.headers M'.headers ∧ M.body = M'.body

theorem CaseVariant.map_headerLine {header header' : HTTPHeader} (h : CaseVariant header header') :
    (headerLine header).map lower = (headerLine header').map lower := by
  simp only [headerLine, List.map_append, h.key, h.value]

theorem map_value_eq {headers headers' : List HTTPHeader}
    (h : List.Forall₂ CaseVariant headers headers') :
    headers.map HTTPHeader.value = headers'.map HTTPHeader.value := by
  induction h with
  | nil => rfl
  | cons hheader _ ih => rw [List.map_cons, List.map_cons, hheader.value, ih]

/-- In lower case the lines are the same. -/
theorem map_lower_lines {headers headers' : List HTTPHeader}
    (h : List.Forall₂ CaseVariant headers headers') :
    (crlf.intercalate (headers.map headerLine)).map lower =
      (crlf.intercalate (headers'.map headerLine)).map lower := by
  induction h with
  | nil => rfl
  | cons hheader hrest ih =>
    have hline := hheader.map_headerLine
    cases hrest with
    | nil => simpa only [List.map_singleton, List.intercalate_singleton] using hline
    | cons _ _ =>
      simp only [List.map_cons] at ih ⊢
      simp only [List.intercalate_cons_cons, List.map_append, hline] at ih ⊢
      rw [ih]

theorem not_isalpha_of_isdigit {c : UInt8} (h : isdigit c = true) : isalpha c = false := by
  simp only [isalpha, isupper, islower, isdigit, Bool.and_eq_true, Bool.or_eq_false_iff,
    Bool.and_eq_false_iff, decide_eq_true_eq, decide_eq_false_iff_not] at *
  grind

/-- A text without letters is determined by its lower case. -/
theorem eq_of_map_lower {s s' : Bytes} (hs : ∀ c ∈ s, isalpha c = false)
    (h : s.map lower = s'.map lower) : s = s' := by
  induction s generalizing s' with
  | nil => exact (List.map_eq_nil_iff.1 h.symm).symm
  | cons c s ih =>
    obtain ⟨hc, hs⟩ := List.forall_mem_cons.1 hs
    cases s' with
    | nil => cases h
    | cons c' s' =>
      rw [List.map_cons, List.map_cons, List.cons.injEq] at h
      have hlower : lower c = c := (lower_eq_iff hc).2 rfl
      have hc' : c' = c := (lower_eq_iff hc).1 (h.1.symm.trans hlower)
      rw [hc', ih hs h.2]

theorem before_map_lower {c : UInt8} (hc : isalpha c = false) (s : Bytes) :
    before c (s.map lower) = (before c s).map lower := by
  have htest : (fun x => decide (x ≠ c)) ∘ lower = fun x => decide (x ≠ c) := by
    funext x
    exact decide_eq_decide.2 (not_congr (lower_eq_iff hc))
  rw [before, List.takeWhile_map, htest, before]

theorem after_map_lower {c : UInt8} (hc : isalpha c = false) (s : Bytes) :
    after c (s.map lower) = (after c s).map lower := by
  have htest : (fun x => decide (x ≠ c)) ∘ lower = fun x => decide (x ≠ c) := by
    funext x
    exact decide_eq_decide.2 (not_congr (lower_eq_iff hc))
  rw [after, List.dropWhile_map, htest, after, List.map_drop]

/-- The version and the status do not depend on the case of letters. -/
theorem parse_congr {head head' : Bytes} (h : head.map lower = head'.map lower)
    {version version' : HTTPVersion} {status status' : HTTPStatus}
    (hversion : parseVersion (versionText head) = .ok version)
    (hversion' : parseVersion (versionText head') = .ok version')
    (hstatus : parseStatus (before space (statusPart head)) = .ok status)
    (hstatus' : parseStatus (before space (statusPart head')) = .ok status') :
    version = version' ∧ status = status' := by
  have hslash : isalpha slash = false := by decide
  have hspace : isalpha space = false := by decide
  have hversionText : (versionText head).map lower = (versionText head').map lower := by
    rw [versionText, versionText, ← before_map_lower hspace, ← before_map_lower hspace,
      ← after_map_lower hslash, ← after_map_lower hslash, h]
  have hstatusText : (before space (statusPart head)).map lower =
      (before space (statusPart head')).map lower := by
    rw [statusPart, statusPart, ← before_map_lower hspace, ← before_map_lower hspace,
      ← after_map_lower hspace, ← after_map_lower hspace, ← after_map_lower hslash,
      ← after_map_lower hslash, h]
  have hknown : ∀ c ∈ versionText head, isalpha c = false := by
    rcases exists_parseVersion_iff.1 ⟨version, hversion⟩ with hv | hv <;> rw [hv] <;> decide
  have hdigits : ∀ c ∈ before space (statusPart head), isalpha c = false := by
    obtain ⟨-, hnumeric, -⟩ := exists_parseStatus_iff.1 ⟨status, hstatus⟩
    exact fun c hc => not_isalpha_of_isdigit (isnumeric_iff.1 hnumeric c hc)
  rw [← eq_of_map_lower hknown hversionText, hversion] at hversion'
  rw [← eq_of_map_lower hdigits hstatusText, hstatus] at hstatus'
  exact ⟨Except.ok.inj hversion', Except.ok.inj hstatus'⟩

/-- **Two messages that differ in the case of their header names** are read alike up to these
names. -/
theorem parse_of_differInNameCase {obj r r' : HTTPResponse} {buffer buffer' : Bytes}
    (hcase : DifferInNameCase buffer buffer') (h : parseHttpResponse obj buffer = .ok r)
    (h' : parseHttpResponse obj buffer' = .ok r') :
    r.version = r'.version ∧ r.status = r'.status ∧ r.body = r'.body ∧
      List.Forall₂ CaseVariant r.headers.items r'.headers.items := by
  obtain ⟨M, M', rfl, rfl, hfirst, hheaders, hbody⟩ := hcase
  obtain ⟨hversion, hstatus, hitems, hcontent⟩ := M.parse_eq_ok h
  obtain ⟨hversion', hstatus', hitems', hcontent'⟩ := M'.parse_eq_ok h'
  have hhead : M.head.map lower = M'.head.map lower := by
    rw [Message.head, Message.head, Message.lines, Message.lines, hfirst, List.map_append,
      List.map_append, List.map_append, List.map_append, map_lower_lines hheaders]
  obtain ⟨hv, hs⟩ := parse_congr hhead hversion hversion' hstatus hstatus'
  refine ⟨hv, hs, by rw [hcontent, hcontent', hbody], ?_⟩
  rw [hitems, hitems', items_addHeaders, items_addHeaders]
  exact List.rel_append (List.forall₂_refl _) hheaders

/-- The value that is found under a name is the one of the first header that is spelled like it. -/
theorem map_value_httpHeadersGet (obj : HTTPHeaders) (name : Bytes) :
    (httpHeadersGet obj name).map HTTPHeader.value =
      (obj.items.map HTTPHeader.value)[obj.items.findIdx fun header => header.key = name]? := by
  rw [httpHeadersGet, List.find?_eq_getElem?_findIdx, List.getElem?_map]

/-- The first header that is spelled like a name is the same one in both, or there is none in either. -/
def SpelledAlike (headers headers' : HTTPHeaders) (name : Bytes) : Prop :=
  (headers.items.findIdx fun header => header.key = name) =
    headers'.items.findIdx fun header => header.key = name

instance (headers headers' : HTTPHeaders) (name : Bytes) :
    Decidable (SpelledAlike headers headers' name) := by
  unfold SpelledAlike
  infer_instance

/-- A redirection depends on the status and on the value that is found under `Location`. -/
theorem httpGetRedirect_congr {request : HTTPRequest} {connection connection' : Connection}
    {r r' : HTTPResponse} (hstatus : r.status = r'.status)
    (hlocation : (httpHeadersGet r.headers httpHeaderLocation).map HTTPHeader.value =
      (httpHeadersGet r'.headers httpHeaderLocation).map HTTPHeader.value) :
    httpGetRedirect ⟨request, r, connection⟩ = httpGetRedirect ⟨request, r', connection'⟩ := by
  simp only [httpGetRedirect]
  cases hget : httpHeadersGet r.headers httpHeaderLocation <;>
    cases hget' : httpHeadersGet r'.headers httpHeaderLocation
  · rfl
  · simp [hget, hget'] at hlocation
  · simp [hget, hget'] at hlocation
  · rw [hget, hget', Option.map_some, Option.map_some, Option.some.injEq] at hlocation
    simp only [hlocation, hstatus]

/-- **Header names are compared byte by byte**: two accepted buffers that differ in the case of their
header names have the same headers up to these names; a name that both spell alike has the same value
in both, and if this name is `Location`, they are the same redirection. -/
theorem headerNames_spelled (context : HTTPContext) {r r' : HTTPResponse} {buffer buffer' : Bytes}
    (hcase : DifferInNameCase buffer buffer')
    (h : parseHttpResponse context.response buffer = .ok r)
    (h' : parseHttpResponse context.response buffer' = .ok r') :
    (∀ name, SpelledAlike r.headers r'.headers name →
      (httpResponseGetHeader { context with response := r } name).map HTTPHeader.value =
        (httpResponseGetHeader { context with response := r' } name).map HTTPHeader.value) ∧
      (SpelledAlike r.headers r'.headers httpHeaderLocation →
        httpGetRedirect { context with response := r } =
          httpGetRedirect { context with response := r' }) ∧
      List.Forall₂ CaseVariant r.headers.items r'.headers.items := by
  obtain ⟨-, hstatus, -, hitems⟩ := parse_of_differInNameCase hcase h h'
  have hfound (name : Bytes) (hname : SpelledAlike r.headers r'.headers name) :
      (httpHeadersGet r.headers name).map HTTPHeader.value =
        (httpHeadersGet r'.headers name).map HTTPHeader.value := by
    rw [map_value_httpHeadersGet, map_value_httpHeadersGet, map_value_eq hitems, hname]
  exact ⟨hfound, fun hname => httpGetRedirect_congr hstatus (hfound _ hname), hitems⟩

theorem Message.text_rendered (version : HTTPVersion) (code : ℤ) {reason : Bytes}
    (hreason : ReasonOk reason) {headers : List HTTPHeader} (hne : headers ≠ [])
    (h : ∀ header ∈ headers, HeaderOk header) (body : Bytes) :
    (Message.rendered version code hreason hne h body).text =
      renderResponse version code reason headers body := by
  simp only [text, head, lines, rendered, renderResponse, List.append_assoc]

/-- Two rendered responses whose header names differ in case. -/
theorem differInNameCase_render {reason : Bytes} (hreason : ReasonOk reason)
    {headers headers' : List HTTPHeader} (hne : headers ≠ [])
    (h : ∀ header ∈ headers, HeaderOk header) (h' : ∀ header ∈ headers', HeaderOk header)
    (hcase : List.Forall₂ CaseVariant headers headers') (version : HTTPVersion) (code : ℤ)
    (body : Bytes) : DifferInNameCase (renderResponse version code reason headers body)
      (renderResponse version code reason headers' body) := by
  have hne' : headers' ≠ [] := by
    rintro rfl
    exact hne (List.forall₂_nil_right_iff.1 hcase)
  exact ⟨.rendered version code hreason hne h body, .rendered version code hreason hne' h' body,
    Message.text_rendered .., Message.text_rendered .., rfl, hcase, rfl⟩

/-- The headers of the examples, under these names. -/
def headersExample (server location : Bytes) : List HTTPHeader :=
  [⟨server, str "a"⟩, ⟨location, str "http://a.b/"⟩]

theorem reasonOk_moved : ReasonOk (str "Moved") := ⟨by decide, by decide, by decide⟩

theorem headerOk_headersExample : ∀ server ∈ [str "Server", str "server"],
    ∀ location ∈ [str "Location", str "location"],
      ∀ header ∈ headersExample server location, HeaderOk header := by
  have hname : ∀ name ∈ [str "Server", str "server"] ++ [str "Location", str "location"],
      headerNameSafe name = true ∧ name ≠ [] := by decide
  have ha : headerValueSafe (str "a") = true ∧ str "a" ≠ [] := by decide
  have hurl : headerValueSafe (str "http://a.b/") = true ∧ str "http://a.b/" ≠ [] := by decide
  intro server hserver location hlocation header hheader
  rcases List.mem_pair.1 hheader with rfl | rfl
  · obtain ⟨hsafe, hne⟩ := hname server (List.mem_append_left _ hserver)
    exact ⟨⟨hsafe, ha.1⟩, hne, ha.2⟩
  · obtain ⟨hsafe, hne⟩ := hname location (List.mem_append_right _ hlocation)
    exact ⟨⟨hsafe, hurl.1⟩, hne, hurl.2⟩

/-- The name of the server in another case: the redirection is the same. -/
theorem headerNames_spelled_server : ∃ r r' : HTTPResponse,
    parseHttpResponse {} (renderResponse .http11 301 (str "Moved")
      (headersExample (str "Server") (str "Location")) []) = .ok r ∧
    parseHttpResponse {} (renderResponse .http11 301 (str "Moved")
      (headersExample (str "server") (str "Location")) []) = .ok r' ∧
    httpGetRedirect { response := r } = httpGetRedirect { response := r' } := by
  have hok := headerOk_headersExample (str "Server") (by simp) (str "Location") (by simp)
  have hok' := headerOk_headersExample (str "server") (by simp) (str "Location") (by simp)
  obtain ⟨r, h, -, -, hitems, -⟩ := parseHttpResponse_renderResponse .http11 301 (str "Moved") []
    _ (by decide) reasonOk_moved (by simp [headersExample]) hok
  obtain ⟨r', h', -, -, hitems', -⟩ := parseHttpResponse_renderResponse .http11 301 (str "Moved") []
    _ (by decide) reasonOk_moved (by simp [headersExample]) hok'
  have hcase : List.Forall₂ CaseVariant (headersExample (str "Server") (str "Location"))
      (headersExample (str "server") (str "Location")) :=
    .cons ⟨by decide, rfl⟩ (.cons ⟨by decide, rfl⟩ .nil)
  have hspelled : SpelledAlike r.headers r'.headers httpHeaderLocation := by
    rw [SpelledAlike, hitems, hitems']
    decide
  exact ⟨r, r', h, h', (headerNames_spelled {} (differInNameCase_render reasonOk_moved
    (by simp [headersExample]) hok hok' hcase .http11 301 []) h h').2.1 hspelled⟩

/-- The name `Location` in another case: there is no header under that name, and no redirection. -/
theorem headerNames_caseSensitive : ∃ r r' : HTTPResponse,
    DifferInNameCase
      (renderResponse .http11 301 (str "Moved") (headersExample (str "Server") (str "Location")) [])
      (renderResponse .http11 301 (str "Moved") (headersExample (str "Server") (str "location")) []) ∧
    parseHttpResponse {} (renderResponse .http11 301 (str "Moved")
      (headersExample (str "Server") (str "Location")) []) = .ok r ∧
    parseHttpResponse {} (renderResponse .http11 301 (str "Moved")
      (headersExample (str "Server") (str "location")) []) = .ok r' ∧
    httpGetRedirect { response := r } = .ok (some (str "http://a.b/")) ∧
    httpGetRedirect { response := r' } = .ok none ∧
    (httpResponseGetHeader { response := r } httpHeaderLocation).map HTTPHeader.value =
      some (str "http://a.b/") ∧
    httpResponseGetHeader { response := r' } httpHeaderLocation = none := by
  have hok := headerOk_headersExample (str "Server") (by simp) (str "Location") (by simp)
  have hok' := headerOk_headersExample (str "Server") (by simp) (str "location") (by simp)
  obtain ⟨r, h, -, hstatus, hitems, -⟩ := parseHttpResponse_renderResponse .http11 301 (str "Moved")
    [] _ (by decide) reasonOk_moved (by simp [headersExample]) hok
  obtain ⟨r', h', -, -, hitems', -⟩ := parseHttpResponse_renderResponse .http11 301 (str "Moved") []
    _ (by decide) reasonOk_moved (by simp [headersExample]) hok'
  have hcase : List.Forall₂ CaseVariant (headersExample (str "Server") (str "Location"))
      (headersExample (str "Server") (str "location")) :=
    .cons ⟨rfl, rfl⟩ (.cons ⟨by decide, rfl⟩ .nil)
  have hfound : httpHeadersGet r.headers httpHeaderLocation =
      some ⟨str "Location", str "http://a.b/"⟩ := by
    rw [httpHeadersGet, hitems]
    decide
  have hnone : httpHeadersGet r'.headers httpHeaderLocation = none := by
    rw [httpHeadersGet, hitems']
    decide
  have hredirect : isRedirectStatus r.status.code = true := by
    rw [hstatus]
    decide
  have habsolute : httpScheme <+: str "http://a.b/" ∨ httpsScheme <+: str "http://a.b/" := by decide
  refine ⟨r, r', differInNameCase_render reasonOk_moved (by simp [headersExample]) hok hok' hcase
    .http11 301 [], h, h', ?_, ?_, ?_, hnone⟩
  · simp only [httpGetRedirect, hfound, hredirect, Bool.not_true, Bool.false_eq_true, if_false,
      if_pos habsolute]
  · simp only [httpGetRedirect, hnone]
  · rw [httpResponseGetHeader, hfound]
    rfl

end Unalix
