import Unalix.OnHeap.Contexts

/-!
# The response parser in memory (`http.c`)

`parse_http_response` adds each header to the response when it has read it, and allocates the body
at the end. So at an error the response owns the headers before it, and has their number and their
size: `http_context_free` can free them (`parseHttpResponse_simulates`).
-/

namespace Unalix.OnHeap

open Calls Heaps CString Ascii

abbrev ResponseCall (α : Type) := EStateM Failure (Filling HTTPResponse) α

/-! ## `parse_http_response` -/

/-- The checks on one header between `headerStart` and `headerEnd`, up to its addition. -/
def checkHeader (headerStart headerEnd : Bytes) : Outcome HTTPHeader :=
  match strstr headerStart headerSeparator with
  | none => fail .httpMalformedHeader
  | some separator =>
    if separator.length < headerEnd.length then fail .httpMalformedHeader
    else do
      let keySize ← checkedSize headerStart separator
      if keySize < 1 then fail .httpMissingHeaderName
      else do
        let key := headerStart.take keySize
        if !headerNameSafe key then fail .httpHeaderContainsInvalidCharacter
        else do
          let separator := separator.drop headerSeparator.length
          let valueSize ← checkedSize separator headerEnd
          if valueSize < 1 then fail .httpMissingHeaderValue
          else do
            let value := separator.take valueSize
            if !headerValueSafe value then fail .httpHeaderContainsInvalidCharacter
            else return { key := key, value := value }

/-- A header is added to the response. -/
def addHeader (header : HTTPHeader) : ResponseCall Unit := do
  let m ← get
  let headers ← heapPart.run (httpHeadersAdd m.obj.headers header.key header.value)
  assign fun obj => { obj with headers := headers }

/-- The loop over the headers, each of which ends at the next CR LF or at the end. -/
def parseHeaders (headerStart : Bytes) : ResponseCall Unit :=
  match _h : strstr headerStart crlf with
  | none => do
    let header ← ofOutcome (checkHeader headerStart [])
    addHeader header
  | some headerEnd => do
    let header ← ofOutcome (checkHeader headerStart headerEnd)
    addHeader header
    parseHeaders (headerEnd.drop crlf.length)
termination_by headerStart.length
decreasing_by
  have := length_le_of_strstr ‹strstr headerStart crlf = some headerEnd›
  simp only [crlf, List.length_cons, List.length_nil, List.length_drop] at *
  omega

/-- The status code is stored before its message is looked at. -/
def parseStatus (statusCode : Bytes) : ResponseCall Unit :=
  if statusCode.length ≠ 3 then throw (.code .httpMalformedStatusCode)
  else if !isnumeric statusCode then throw (.code .httpMalformedStatusCode)
  else do
    let message := httpStatusStringify (atoi statusCode)
    assign fun obj => { obj with status := { code := atoi statusCode, message := message } }
    if message.isNone then throw (.code .httpUnknownStatusCode) else pure ()

/-- The part of `parse_http_response` that reads the bytes before the first empty line. -/
def parseHead (headers : Bytes) : ResponseCall Unit := do
  let httpVersionStart ← ofOutcome (deref (strstr headers [slash]))
  let httpVersionStart := httpVersionStart.drop 1
  let httpVersionEnd ← ofOutcome (deref (strstr httpVersionStart [space]))
  let httpVersionSize ← ofOutcome (checkedSize httpVersionStart httpVersionEnd)
  let version ← ofOutcome (parseVersion (httpVersionStart.take httpVersionSize))
  assign fun obj => { obj with version := version }
  let statusCodeStart ← ofOutcome (deref (strstr httpVersionEnd [space]))
  let statusCodeStart := statusCodeStart.drop 1
  let statusCodeEnd ← ofOutcome (deref (strstr statusCodeStart [space]))
  let statusCodeSize ← ofOutcome (checkedSize statusCodeStart statusCodeEnd)
  parseStatus (statusCodeStart.take statusCodeSize)
  let headerStart ← ofOutcome (deref (strstr headers crlf))
  parseHeaders (headerStart.drop crlf.length)

/-- The body is copied, if there is one. -/
def setBody (body : Bytes) : ResponseCall Unit :=
  if 0 < body.length then do
    let content ← heapPart.run (allocBytes body)
    assign fun obj => { obj with body := { size := body.length, content := some content } }
  else pure ()

/-- `parse_http_response`. -/
def parseHttpResponse (buffer : Bytes) : ResponseCall Unit := do
  let data := cString buffer
  let separator ← ofOutcome (deref (strstr data crlfcrlf))
  let headersSize ← ofOutcome (checkedSize data separator)
  let body ← ofOutcome (bodyFrom buffer (headersSize + crlfcrlf.length))
  parseHead (data.take headersSize)
  setBody body

/-! ## What the parser leaves -/

/-- The struct holds the response `v`, besides what it owns the blocks of `rest` are allocated, and
`k` bytes outside of blocks were accessed. -/
def HoldsResponse (k : ℕ) (rest : Multiset (ℕ × Block)) (v : Unalix.HTTPResponse)
    (m : Filling HTTPResponse) : Prop :=
  ∃ r : PlacedResponse, r.value = v ∧ m.obj = r.record ∧ Holds k m.heap (r.cells + rest)

/-- Some response is held when an error is found. -/
def OwnedResponse (k : ℕ) (rest : Multiset (ℕ × Block)) (_ : Failure) (m : Filling HTTPResponse) :
    Prop :=
  ∃ v, HoldsResponse k rest v m

section Spec

variable {k : ℕ} {rest : Multiset (ℕ × Block)} {v : Unalix.HTTPResponse}

theorem parseHeader_eq (obj : Unalix.HTTPHeaders) (headerStart headerEnd : Bytes) :
    parseHeader obj headerStart headerEnd = checkHeader headerStart headerEnd >>= fun header =>
      pure (Unalix.httpHeadersAdd obj header.key header.value) := by
  unfold parseHeader checkHeader
  cases strstr headerStart headerSeparator with
  | none => rfl
  | some separator =>
    simp only
    split_ifs
    · rfl
    · rw [bind_assoc]
      refine bind_congr fun keySize => ?_
      split_ifs
      · rfl
      · rfl
      · rw [bind_assoc]
        refine bind_congr fun valueSize => ?_
        split_ifs <;> rfl

theorem HoldsResponse.owned {e : Failure} {m : Filling HTTPResponse} (hm : HoldsResponse k rest v m) :
    OwnedResponse k rest e m := ⟨v, hm⟩

/-- A header more in memory. -/
theorem HoldsResponse.addHeader {m : Filling HTTPResponse} (hm : HoldsResponse k rest v m)
    (header : HTTPHeader) :
    ∃ m', OnHeap.addHeader header m = .ok () m' ∧ HoldsResponse k rest
      { v with headers := Unalix.httpHeadersAdd v.headers header.key header.value } m' := by
  obtain ⟨h, obj⟩ := m
  obtain ⟨r, rfl, hobj, hh⟩ := hm
  cases (hobj : obj = r.record)
  rw [PlacedResponse.cells, add_assoc] at hh
  obtain ⟨headers, h', hadd, hvalue, hh⟩ := exists_httpHeadersAdd hh header.key header.value
  have hrun : heapPart.run (httpHeadersAdd r.headers.record header.key header.value)
      ⟨h, r.record⟩ = .ok headers.record ⟨h', r.record⟩ := Part.run_eq_ok.2 ⟨h', hadd, rfl⟩
  refine ⟨_, run_bind_of_ok hrun _, { r with headers := headers }, ?_, rfl, ?_⟩
  · simp only [PlacedResponse.value, hvalue]
  · rwa [PlacedResponse.cells, add_assoc]

/-- A header that is read is added, on values and in memory. -/
theorem readHeader_simulates {δ : Type} {next : Unit → ResponseCall δ} {γ : Type}
    {g : Unalix.HTTPHeaders → Outcome γ} {Q : γ → δ → Filling HTTPResponse → Prop}
    (headerStart headerEnd : Bytes)
    (hnext : ∀ items, Simulates (HoldsResponse k rest { v with headers := items }) (next ())
      (g items) Q (OwnedResponse k rest)) :
    Simulates (HoldsResponse k rest v)
      (ofOutcome (checkHeader headerStart headerEnd) >>= fun header => addHeader header >>= next)
      (parseHeader v.headers headerStart headerEnd >>= g) Q (OwnedResponse k rest) := by
  rw [parseHeader_eq, bind_assoc]
  refine simulates_ofOutcome_bind (fun e m hm => hm.owned) fun header _ => ?_
  refine Simulates.step (R := fun _ => HoldsResponse k rest _) (fun m hm => ?_) fun _ => hnext _
  obtain ⟨m', hrun, hm'⟩ := hm.addHeader header
  exact ⟨(), m', hrun, hm'⟩

theorem parseHeaders_of_none {headerStart : Bytes} (h : strstr headerStart crlf = none) :
    parseHeaders headerStart = ofOutcome (checkHeader headerStart []) >>= addHeader := by
  rw [parseHeaders]
  split
  · rfl
  · simp_all

theorem parseHeaders_of_some {headerStart headerEnd : Bytes}
    (h : strstr headerStart crlf = some headerEnd) :
    parseHeaders headerStart = ofOutcome (checkHeader headerStart headerEnd) >>= fun header =>
      addHeader header >>= fun _ => parseHeaders (headerEnd.drop crlf.length) := by
  rw [parseHeaders]
  split
  · simp_all
  · simp_all

/-- The loop over the headers. -/
theorem parseHeaders_simulates (headerStart : Bytes) :
    Simulates (HoldsResponse k rest v) (parseHeaders headerStart)
      (Unalix.parseHeaders v.headers headerStart)
      (fun items _ m => HoldsResponse k rest { v with headers := items } m)
      (OwnedResponse k rest) := by
  induction hn : headerStart.length using Nat.strong_induction_on generalizing headerStart v with
  | _ n ih =>
    rw [Unalix.parseHeaders]
    split
    · rename_i hs
      have hlast := @readHeader_simulates k rest v Unit pure _ pure
        (fun items _ m => HoldsResponse k rest { v with headers := items } m) headerStart []
        fun items => Simulates.pure fun m hm => hm
      rw [bind_pure] at hlast
      simp only [bind_pure] at hlast
      rw [parseHeaders_of_none hs]
      exact hlast
    · rename_i headerEnd hs
      have hlt : (headerEnd.drop crlf.length).length < n := by
        have := length_le_of_strstr hs
        simp only [crlf, List.length_cons, List.length_nil, List.length_drop] at *
        omega
      rw [parseHeaders_of_some hs]
      refine readHeader_simulates headerStart headerEnd fun items => ?_
      exact ih _ hlt _ rfl

/-- A change of the struct that changes nothing it owns. -/
theorem HoldsResponse.assign {m : Filling HTTPResponse} {f : HTTPResponse → HTTPResponse}
    (g : Unalix.HTTPResponse → Unalix.HTTPResponse) (change : PlacedResponse → PlacedResponse)
    (hvalue : ∀ r, (change r).value = g r.value) (hrecord : ∀ r, (change r).record = f r.record)
    (hcells : ∀ r, (change r).cells = r.cells) (hm : HoldsResponse k rest v m) :
    ∃ m', OnHeap.assign f m = .ok () m' ∧ HoldsResponse k rest (g v) m' := by
  obtain ⟨r, rfl, hobj, hh⟩ := hm
  refine ⟨_, rfl, change r, hvalue r, ?_, ?_⟩
  · exact (congrArg f hobj).trans (hrecord r).symm
  · rwa [hcells]

theorem HoldsResponse.setVersion {m : Filling HTTPResponse} (hm : HoldsResponse k rest v m)
    (version : HTTPVersion) :
    ∃ m', OnHeap.assign (fun obj : HTTPResponse => { obj with version := version }) m =
        .ok () m' ∧ HoldsResponse k rest { v with version := version } m' :=
  HoldsResponse.assign (fun v => { v with version := version })
    (fun r => { r with version := version }) (fun _ => rfl) (fun _ => rfl) (fun _ => rfl) hm

theorem HoldsResponse.setStatus {m : Filling HTTPResponse} (hm : HoldsResponse k rest v m)
    (status : HTTPStatus) :
    ∃ m', OnHeap.assign (fun obj : HTTPResponse => { obj with status := status }) m =
        .ok () m' ∧ HoldsResponse k rest { v with status := status } m' :=
  HoldsResponse.assign (fun v => { v with status := status })
    (fun r => { r with status := status }) (fun _ => rfl) (fun _ => rfl) (fun _ => rfl) hm

/-- The status code is stored, whether it has a message or not. -/
theorem parseStatus_simulates (statusCode : Bytes) :
    Simulates (HoldsResponse k rest v) (parseStatus statusCode) (Unalix.parseStatus statusCode)
      (fun status _ m => HoldsResponse k rest { v with status := status } m)
      (OwnedResponse k rest) := by
  unfold parseStatus Unalix.parseStatus
  split_ifs with hlength hnumeric
  · exact Simulates.throw fun m hm => hm.owned
  · exact Simulates.throw fun m hm => hm.owned
  · intro m hm
    obtain ⟨m', hrun, hm'⟩ := hm.setStatus ⟨atoi statusCode, httpStatusStringify (atoi statusCode)⟩
    simp only
    rw [run_bind_of_ok hrun]
    cases hmessage : httpStatusStringify (atoi statusCode) with
    | none => exact ⟨m', rfl, hm'.owned⟩
    | some message =>
      rw [hmessage] at hm'
      exact ⟨(), m', rfl, hm'⟩

/-- The status line and the headers. -/
theorem parseHead_simulates (headers : Bytes) :
    Simulates (HoldsResponse k rest v) (parseHead headers) (Unalix.parseHead v headers)
      (fun v' _ m => HoldsResponse k rest v' m) (OwnedResponse k rest) := by
  have howned {v : Unalix.HTTPResponse} (e : Failure) (m : Filling HTTPResponse)
      (hm : HoldsResponse k rest v m) : OwnedResponse k rest e m := hm.owned
  refine simulates_ofOutcome_bind howned fun httpVersionStart _ => ?_
  refine simulates_ofOutcome_bind howned fun httpVersionEnd _ => ?_
  refine simulates_ofOutcome_bind howned fun httpVersionSize _ => ?_
  refine simulates_ofOutcome_bind howned fun version _ => ?_
  refine Simulates.step (R := fun _ => HoldsResponse k rest { v with version := version })
    (fun m hm => ?_) fun _ => ?_
  · obtain ⟨m', hrun, hm'⟩ := hm.setVersion version
    exact ⟨(), m', hrun, hm'⟩
  refine simulates_ofOutcome_bind howned fun statusCodeStart _ => ?_
  refine simulates_ofOutcome_bind howned fun statusCodeEnd _ => ?_
  refine simulates_ofOutcome_bind howned fun statusCodeSize _ => ?_
  refine Simulates.bind (parseStatus_simulates _) fun status _ _ => ?_
  refine simulates_ofOutcome_bind howned fun headerStart _ => ?_
  exact Simulates.map (parseHeaders_simulates _) fun items _ m _ hm => hm

/-- The body is copied into a response that has none. -/
theorem HoldsResponse.setBody {m : Filling HTTPResponse} (hm : HoldsResponse k rest v m)
    (hbody : v.body = []) (body : Bytes) :
    ∃ m', OnHeap.setBody body m = .ok () m' ∧
      HoldsResponse k rest { v with body := if 0 < body.length then body else v.body } m' := by
  by_cases hlength : 0 < body.length
  · obtain ⟨h, obj⟩ := m
    obtain ⟨r, rfl, hobj, hh⟩ := hm
    cases (hobj : obj = r.record)
    have hcontent : r.body.content = none := by
      obtain ⟨status, version, headers, ⟨content, hnonempty⟩⟩ := r
      cases content with
      | none => rfl
      | some t => exact absurd hbody (hnonempty t rfl)
    obtain ⟨a, h', halloc, hh⟩ := hh.alloc (ε := Failure) (.bytes body)
    have hrun : heapPart.run (allocBytes body) ⟨h, r.record⟩ = .ok a ⟨h', r.record⟩ :=
      Part.run_eq_ok.2 ⟨h', halloc, rfl⟩
    have hne : ∀ t ∈ some (a, body), t.2 ≠ [] := by
      rintro _ ⟨⟩
      exact List.ne_nil_of_length_pos hlength
    rw [OnHeap.setBody, if_pos hlength, if_pos hlength]
    refine ⟨_, run_bind_of_ok hrun _, { r with body := ⟨some (a, body), hne⟩ }, rfl, rfl, ?_⟩
    rw [PlacedResponse.cells, PlacedBody.cells, hcontent, Option.elim_none, add_zero] at hh
    rwa [PlacedResponse.cells, PlacedBody.cells, Option.elim_some, add_assoc, add_left_comm,
      Multiset.singleton_add]
  · rw [OnHeap.setBody, if_neg hlength, if_neg hlength]
    exact ⟨m, rfl, hm⟩

/-- **`parse_http_response` in memory**, into a response without a body. At an error the response
still owns all that was allocated. -/
theorem parseHttpResponse_simulates (hbody : v.body = []) (buffer : Bytes) :
    Simulates (HoldsResponse k rest v) (parseHttpResponse buffer)
      (Unalix.parseHttpResponse v buffer) (fun v' _ m => HoldsResponse k rest v' m)
      (OwnedResponse k rest) := by
  have howned (e : Failure) (m : Filling HTTPResponse) (hm : HoldsResponse k rest v m) :
      OwnedResponse k rest e m := hm.owned
  refine simulates_ofOutcome_bind howned fun separator _ => ?_
  refine simulates_ofOutcome_bind howned fun headersSize _ => ?_
  refine simulates_ofOutcome_bind howned fun body _ => ?_
  refine Simulates.bind (parseHead_simulates _) fun v' _ hhead m hm => ?_
  have hbody' : v'.body = [] := (code_of_parseHead hhead).2.trans hbody
  obtain ⟨m', hrun, hm'⟩ := hm.setBody hbody' body
  exact ⟨(), m', hrun, hm'⟩

end Spec

end Unalix.OnHeap
