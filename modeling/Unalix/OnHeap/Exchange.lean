import Unalix.OnHeap.ParseUri
import Unalix.OnHeap.Response
import Unalix.Http.Redirect
import Unalix.Http.RequestBuffers

/-!
# HTTP exchanges in memory (`http.c`)

The functions that fill in a context and send its request do in memory what they do on values. The
buffer of the printed request is freed as soon as it is sent. Where one of them returns an error
code the context still owns all that is allocated (`Failed`), so `http_context_free` is what every
caller has to do, and is all that it has to do.

The one access outside of a block is that to the byte behind the buffer of a request without a body.
It is made for each request that is printed, and for no other (`httpRequestSend_refines`).
-/

namespace Unalix.OnHeap

open Calls Heaps CString Ascii Buffers

abbrev ContextCall (α : Type) := EStateM Failure (Filling HTTPContext) α

/-! ## Requests -/

/-- `http_request_add_header` on a context. -/
def contextAddHeader (key value : Bytes) : ContextCall Unit := do
  let m ← get
  let headers ← heapPart.run (httpHeadersAdd m.obj.request.headers key value)
  assign fun context => { context with request := { context.request with headers := headers } }

def setUri (uri : URI) (context : HTTPContext) : HTTPContext :=
  { context with request := { context.request with uri := uri } }

/-- `uri_parse` into the URI of the request, which is zeroed at an error code. -/
def parseRequestUri (url : Bytes) : ContextCall Unit := fun m =>
  match uriParse m.obj.request.uri url m.heap with
  | .ok uri h => .ok () { heap := h, obj := setUri uri m.obj }
  | .error e h => .error e { heap := h, obj := setUri {} m.obj }

/-- `http_request_set_url` on a context. -/
def contextSetUrl (url : Bytes) : ContextCall Unit := do
  parseRequestUri url
  let m ← get
  let uri ← heapPart.run (readUri m.obj.request.uri)
  contextAddHeader hostKey (hostValue uri)

/-- The header that is added for a body. -/
def addContentLength : ContextCall Unit := do
  let m ← get
  let bodySize := m.obj.request.body.size
  if 0 < bodySize then contextAddHeader (str "Content-Length") (contentLengthValue bodySize)
  else pure ()

/-- `malloc` for an array, and the array written: the bytes behind its end are not kept. -/
def allocBuffer (buffer : Buffer UInt8) : HeapCall ℕ := do
  let a ← allocBytes (buffer.content.take buffer.size)
  beyond (buffer.reach - buffer.size)
  return a

/-- `http_request_stringify`: the buffer is written as in `requestBuffers`, with the header for a
body. -/
def httpRequestStringify : ContextCall ℕ := do
  let m ← get
  let request ← heapPart.run (readRequest m.obj.request)
  addContentLength
  heapPart.run (allocBuffer (requestBuffers request).buffer)

/-! ## `http_request_send`, `http_get_redirect` -/

/-- The response of a context. -/
def responsePart : Part (Filling HTTPContext) (Filling HTTPResponse) where
  get m := { heap := m.heap, obj := m.obj.response }
  set m response := { heap := response.heap, obj := { m.obj with response := response.obj } }

/-- `http_request_send`. -/
def httpRequestSend (exchange : Exchange) : ContextCall Unit := do
  let m ← get
  let uri ← heapPart.run (readUri m.obj.request.uri)
  ofOutcome (checkPort uri)
  require exchange.resolved .dnsGaiFailure
  assign fun context => { context with connection := { context.connection with
    fd := socketResult exchange.socket
    calls := context.connection.calls ++ (exchange.socket.map FdCall.socket).toList } }
  require exchange.socket.isSome .socketFailure
  require (decide (m.obj.connection.timeout ≤ 0) || exchange.timeoutSet) .socketSetoptFailure
  require exchange.connected .socketConnectFailure
  let buffer ← httpRequestStringify
  let scheme ← ofOutcome (deref uri.scheme)
  let isHttps : Bool := scheme = httpsScheme
  assign fun context => { context with connection := { context.connection with
    isInitialized := context.connection.isInitialized || isHttps } }
  heapPart.run (free invalid buffer)
  require exchange.sent (if isHttps then .sslFailure else .socketSendFailure)
  let received := receiveHead isHttps exchange.stale [] exchange.incoming
  assign fun context => { context with connection := { context.connection with
    incoming := received.2 } }
  let headers ← ofOutcome received.1
  responsePart.run (parseHttpResponse headers)

/-- `http_get_redirect`: the URL to follow is copied into fresh memory, if there is one. -/
def httpGetRedirect (context : HTTPContext) : HeapCall (Option ℕ) := do
  let request ← readRequest context.request
  let response ← readResponse context.response
  let dst ← ofOutcome (Unalix.httpGetRedirect
    { request := request, response := response, connection := context.connection })
  allocText dst

/-! ## What a context holds -/

/-- The context `c` is in memory, besides what it owns the blocks of `rest` are allocated, and `k`
bytes outside of blocks were accessed. -/
def HoldsContext (k : ℕ) (rest : Multiset (ℕ × Block)) (c : Unalix.HTTPContext)
    (m : Filling HTTPContext) : Prop :=
  ∃ p : PlacedContext, p.value = c ∧ m.obj = p.record ∧ Holds k m.heap (p.cells + rest)

/-- At an error code the context is another one with the same connection. -/
def Failed (k : ℕ) (rest : Multiset (ℕ × Block)) (e : Failure) (c : Unalix.HTTPContext)
    (m : Filling HTTPContext) : Prop :=
  ∀ code, e = .code code → ∃ c', c'.connection = c.connection ∧ HoldsContext k rest c' m

/-- The request is printed: the port of its URI is known, and the connection is made. -/
def Printed (exchange : Exchange) (timeout : ℤ) (request : Unalix.HTTPRequest) : Prop :=
  checkPort request.uri = .ok () ∧ exchange.resolved = true ∧ exchange.socket.isSome = true ∧
    (decide (timeout ≤ 0) || exchange.timeoutSet) = true ∧ exchange.connected = true

instance (exchange : Exchange) (timeout : ℤ) (request : Unalix.HTTPRequest) :
    Decidable (Printed exchange timeout request) := inferInstanceAs (Decidable (_ ∧ _))

/-- The bytes behind the buffer of a request that are accessed. -/
def strayBytes (exchange : Exchange) (timeout : ℤ) (request : Unalix.HTTPRequest) : ℕ :=
  if Printed exchange timeout request ∧ request.body = [] then 1 else 0

theorem strayBytes_of_body_eq_nil {request : Unalix.HTTPRequest} (h : request.body = [])
    (exchange : Exchange) (timeout : ℤ) :
    strayBytes exchange timeout request = if Printed exchange timeout request then 1 else 0 := by
  simp only [strayBytes, h, and_true]

section Spec

variable {k : ℕ} {rest : Multiset (ℕ × Block)} {c : Unalix.HTTPContext}
  {m : Filling HTTPContext}

theorem HoldsContext.failed {e : Failure} (hm : HoldsContext k rest c m) : Failed k rest e c m :=
  fun _ _ => ⟨c, rfl, hm⟩

theorem failed_fault (f : Fault) (c : Unalix.HTTPContext) (m : Filling HTTPContext) :
    Failed k rest (.fault f) c m := by
  intro code hcode
  cases hcode

/-- A change of the struct that changes nothing it owns. -/
theorem HoldsContext.assign {f : HTTPContext → HTTPContext}
    (g : Unalix.HTTPContext → Unalix.HTTPContext) (change : PlacedContext → PlacedContext)
    (hvalue : ∀ p, (change p).value = g p.value) (hrecord : ∀ p, (change p).record = f p.record)
    (hcells : ∀ p, (change p).cells = p.cells) (hm : HoldsContext k rest c m) :
    HoldsContext k rest (g c) { m with obj := f m.obj } := by
  obtain ⟨p, rfl, hobj, hh⟩ := hm
  refine ⟨change p, hvalue p, ?_, ?_⟩
  · exact (congrArg f hobj).trans (hrecord p).symm
  · rwa [hcells]

/-- A change of the connection. -/
theorem HoldsContext.setConnection (f : Connection → Connection) (hm : HoldsContext k rest c m) :
    HoldsContext k rest { c with connection := f c.connection }
      { m with obj := { m.obj with connection := f m.obj.connection } } :=
  HoldsContext.assign (f := fun context => { context with connection := f context.connection })
    (fun c => { c with connection := f c.connection })
    (fun p => { p with connection := f p.connection }) (fun _ => rfl) (fun _ => rfl)
    (fun _ => rfl) hm

/-- A header more in memory. -/
theorem HoldsContext.addHeader (hm : HoldsContext k rest c m) (key value : Bytes) :
    ∃ m', OnHeap.contextAddHeader key value m = .ok () m' ∧
      HoldsContext k rest { c with request := httpRequestAddHeader c.request key value } m' := by
  obtain ⟨h, obj⟩ := m
  obtain ⟨p, rfl, hobj, hh⟩ := hm
  cases (hobj : obj = p.record)
  rw [PlacedContext.cells, PlacedRequest.cells, add_assoc, add_assoc] at hh
  obtain ⟨headers, h', hadd, hvalue, hh⟩ := exists_httpHeadersAdd hh key value
  have hrun : heapPart.run (httpHeadersAdd p.request.headers.record key value) ⟨h, p.record⟩ =
      .ok headers.record ⟨h', p.record⟩ := Part.run_eq_ok.2 ⟨h', hadd, rfl⟩
  refine ⟨_, run_bind_of_ok hrun _, { p with request := { p.request with headers := headers } },
    ?_, rfl, ?_⟩
  · simp only [PlacedContext.value, PlacedRequest.value, hvalue]
    rfl
  · rwa [PlacedContext.cells, PlacedRequest.cells, add_assoc, add_assoc]

theorem parseRequestUri_of_ok {url : Bytes} {uri : URI} {h : Heap Block}
    (hrun : uriParse m.obj.request.uri url m.heap = .ok uri h) :
    parseRequestUri url m = .ok () ⟨h, setUri uri m.obj⟩ := by
  rw [parseRequestUri, hrun]

theorem parseRequestUri_of_error {url : Bytes} {e : Failure} {h : Heap Block}
    (hrun : uriParse m.obj.request.uri url m.heap = .error e h) :
    parseRequestUri url m = .error e ⟨h, setUri {} m.obj⟩ := by
  rw [parseRequestUri, hrun]

/-- The URI of a request that has none is parsed. -/
theorem parseRequestUri_simulates (url : Bytes) (hzero : c.request.uri = {}) :
    Simulates (HoldsContext k rest c) (parseRequestUri url) (Unalix.uriParse {} url)
      (fun uri _ m => HoldsContext k rest { c with request := { c.request with uri := uri } } m)
      (Failed k rest · c) := by
  intro m hm
  obtain ⟨h, obj⟩ := m
  obtain ⟨p, rfl, hobj, hh⟩ := hm
  cases (hobj : obj = p.record)
  obtain ⟨⟨version, method, headers, body, uri⟩, response, connection⟩ := p
  cases PlacedUri.eq_zeroed hzero
  let placed (uri : PlacedUri) : PlacedContext :=
    ⟨⟨version, method, headers, body, uri⟩, response, connection⟩
  have hcells (uri : PlacedUri) : (placed uri).cells + rest =
      uri.cells + (headers.cells + (body.cells + (response.cells + rest))) := by
    simp only [placed, PlacedContext.cells, PlacedRequest.cells]
    abel
  change Holds k h ((placed {}).cells + rest) at hh
  rw [hcells, PlacedUri.cells_zeroed, zero_add] at hh
  have hparse := uriParse_simulates url h hh
  cases hr : Unalix.uriParse {} url with
  | ok v =>
    rw [hr] at hparse
    obtain ⟨obj, h', hrun, uri, rfl, rfl, hh⟩ := hparse
    rw [← hcells] at hh
    exact ⟨(), _, parseRequestUri_of_ok hrun, placed uri, rfl, rfl, hh⟩
  | error e =>
    rw [hr] at hparse
    obtain ⟨h', hrun, hh⟩ := hparse
    refine ⟨_, parseRequestUri_of_error hrun, fun code he => ⟨_, rfl, placed {}, rfl, rfl, ?_⟩⟩
    rw [hcells, PlacedUri.cells_zeroed, zero_add]
    exact hh code he

/-- The URI of a request is read. -/
theorem HoldsContext.readUri (hm : HoldsContext k rest c m) :
    heapPart.run (OnHeap.readUri m.obj.request.uri) m = .ok c.request.uri m := by
  obtain ⟨h, obj⟩ := m
  obtain ⟨p, rfl, hobj, hh⟩ := hm
  cases (hobj : obj = p.record)
  rw [PlacedContext.cells, PlacedRequest.cells, ← add_assoc p.request.headers.cells,
    add_comm _ p.request.uri.cells, add_assoc, add_assoc] at hh
  exact Part.run_eq_ok.2 ⟨h, readUri_eq hh, rfl⟩

/-- **`http_request_set_url` in memory**, on a request without a URI. -/
theorem contextSetUrl_refines (url : Bytes) :
    Refines (fun c m => c.request.uri = {} ∧ HoldsContext k rest c m) (Unalix.contextSetUrl url)
      (contextSetUrl url) (fun _ _ => HoldsContext k rest) (Failed k rest) := by
  rintro c m ⟨hzero, hm⟩
  have hparse := parseRequestUri_simulates url hzero m hm
  rw [Unalix.contextSetUrl, run_get_bind, httpRequestSetUrl, hzero]
  cases hr : Unalix.uriParse {} url with
  | ok uri =>
    rw [hr] at hparse
    obtain ⟨_, m₁, hrun, hm₁⟩ := hparse
    obtain ⟨m', hadd, hm'⟩ := hm₁.addHeader hostKey (hostValue uri)
    refine ⟨(), m', ?_, hm'⟩
    exact (run_bind_of_ok hrun _).trans ((run_bind_of_ok hm₁.readUri _).trans hadd)
  | error e =>
    rw [hr] at hparse
    obtain ⟨m', hrun, hm'⟩ := hparse
    exact ⟨m', run_bind_of_error hrun _, hm'⟩

theorem HoldsContext.readRequest (hm : HoldsContext k rest c m) :
    heapPart.run (OnHeap.readRequest m.obj.request) m = .ok c.request m := by
  obtain ⟨h, obj⟩ := m
  obtain ⟨p, rfl, hobj, hh⟩ := hm
  cases (hobj : obj = p.record)
  rw [PlacedContext.cells, add_assoc] at hh
  exact Part.run_eq_ok.2 ⟨h, readRequest_eq hh, rfl⟩

theorem HoldsContext.addContentLength (hm : HoldsContext k rest c m) :
    ∃ m', OnHeap.addContentLength m = .ok () m' ∧
      HoldsContext k rest { c with request := Unalix.addContentLength c.request } m' := by
  have hsize : m.obj.request.body.size = c.request.body.length := by
    obtain ⟨p, rfl, hobj, -⟩ := hm
    rw [hobj]
    rfl
  rw [OnHeap.addContentLength, run_get_bind, Unalix.addContentLength, hsize]
  by_cases hbody : 0 < c.request.body.length
  · rw [if_pos hbody, if_pos hbody]
    exact hm.addHeader _ _
  · rw [if_neg hbody, if_neg hbody]
    exact ⟨m, rfl, hm⟩

/-- **`http_request_stringify` in memory**: the buffer holds the printed request, and without a body
the terminator of the head lies behind it. -/
theorem HoldsContext.stringify (hm : HoldsContext k rest c m) :
    ∃ a m', httpRequestStringify m = .ok a m' ∧
      HoldsContext (k + if c.request.body = [] then 1 else 0)
        ((a, .bytes (Unalix.httpRequestStringify c.request).2) ::ₘ rest)
        { c with request := (Unalix.httpRequestStringify c.request).1 } m' := by
  obtain ⟨m₁, hadd, hm₁⟩ := hm.addContentLength
  obtain ⟨p, hp, hobj, hh⟩ := hm₁
  obtain ⟨hcontent, hsize, hreach⟩ := requestBuffers_buffer c.request
  obtain ⟨a, h₂, halloc, hh⟩ := hh.alloc (ε := Failure)
    (.bytes (Unalix.httpRequestStringify c.request).2)
  obtain ⟨h', hbeyond, hh⟩ := @Holds.beyond Failure _ _ _ _ hh
    (if c.request.body = [] then 1 else 0)
  have hbuffer : allocBuffer (requestBuffers c.request).buffer m₁.heap = .ok a h' := by
    rw [allocBuffer, hcontent, hreach, Nat.add_sub_cancel_left, hsize, List.take_length]
    exact (run_bind_of_ok halloc _).trans (run_bind_of_ok hbeyond _)
  refine ⟨a, { m₁ with heap := h' }, ?_, p, hp, hobj, ?_⟩
  · rw [httpRequestStringify, run_get_bind]
    refine (run_bind_of_ok hm.readRequest _).trans ((run_bind_of_ok hadd _).trans ?_)
    exact Part.run_eq_ok.2 ⟨h', hbuffer, rfl⟩
  · rwa [Multiset.add_cons]

/-- The buffer is freed. -/
theorem HoldsContext.freeBuffer {a : ℕ} {b : Block} (hm : HoldsContext k ((a, b) ::ₘ rest) c m) :
    ∃ m', heapPart.run (free invalid a) m = .ok () m' ∧ HoldsContext k rest c m' := by
  obtain ⟨p, hp, hobj, hh⟩ := hm
  rw [Multiset.add_cons] at hh
  obtain ⟨h', hfree, hh⟩ := hh.free invalid
  exact ⟨{ m with heap := h' }, Part.run_eq_ok.2 ⟨h', hfree, rfl⟩, p, hp, hobj, hh⟩

/-- **The response is parsed into the context.** -/
theorem parseResponse_simulates (hbody : c.response.body = []) (buffer : Bytes) :
    Simulates (HoldsContext k rest c) (responsePart.run (parseHttpResponse buffer))
      (Unalix.parseHttpResponse c.response buffer)
      (fun response _ m => HoldsContext k rest { c with response := response } m)
      (Failed k rest · c) := by
  intro m hm
  obtain ⟨p, rfl, hobj, hh⟩ := hm
  rw [PlacedContext.cells, add_comm, ← add_assoc, add_comm, add_comm rest] at hh
  have hresponse : HoldsResponse k (p.request.cells + rest) p.response.value
      (responsePart.get m) := by
    refine ⟨p.response, rfl, ?_, hh⟩
    change m.obj.response = _
    rw [hobj]
    rfl
  have hparse := parseHttpResponse_simulates hbody buffer _ hresponse
  have hback (m' : Filling HTTPResponse) (v : Unalix.HTTPResponse)
      (hm' : HoldsResponse k (p.request.cells + rest) v m') :
      HoldsContext k rest { p.value with response := v } (responsePart.set m m') := by
    obtain ⟨r, rfl, hobj', hh⟩ := hm'
    refine ⟨{ p with response := r }, rfl, ?_, ?_⟩
    · change { m.obj with response := m'.obj } = _
      rw [hobj, hobj']
      rfl
    · rw [PlacedContext.cells, add_comm p.request.cells, add_assoc]
      exact hh
  cases hr : Unalix.parseHttpResponse p.value.response buffer with
  | ok v =>
    rw [hr] at hparse
    obtain ⟨_, m', hrun, hm'⟩ := hparse
    exact ⟨(), _, Part.run_eq_ok.2 ⟨m', hrun, rfl⟩, hback m' v hm'⟩
  | error e =>
    rw [hr] at hparse
    obtain ⟨m', hrun, v, hm'⟩ := hparse
    exact ⟨_, Part.run_eq_error.2 ⟨m', hrun, rfl⟩, fun _ _ =>
      ⟨{ p.value with response := v }, rfl, hback m' v hm'⟩⟩

/-- The same calculation on both sides. -/
theorem refines_ofOutcome_bind {σ τ α β γ : Type} {R : σ → τ → Prop} {r : Outcome α}
    {f : α → EStateM Failure σ β} {g : α → EStateM Failure τ γ} {Q : β → γ → σ → τ → Prop}
    {E : Failure → σ → τ → Prop} (hE : ∀ e, r = .error e → ∀ s t, R s t → E e s t)
    (h : ∀ a, r = .ok a → Refines R (f a) (g a) Q E) :
    Refines R (ofOutcome r >>= f) (ofOutcome r >>= g) Q E := by
  cases r with
  | ok a => exact h a rfl
  | error e => exact fun s t hR => ⟨t, rfl, hE e rfl s t hR⟩

theorem refines_require_bind {σ τ β γ : Type} {R : σ → τ → Prop} {condition : Bool}
    {e : ErrorCode} {f : Unit → EStateM Failure σ β} {g : Unit → EStateM Failure τ γ}
    {Q : β → γ → σ → τ → Prop} {E : Failure → σ → τ → Prop}
    (hE : condition = false → ∀ e s t, R s t → E e s t)
    (h : condition = true → Refines R (f ()) (g ()) Q E) :
    Refines R (require condition e >>= f) (require condition e >>= g) Q E := by
  cases condition with
  | true => exact h rfl
  | false => exact fun s t hR => ⟨t, rfl, hE rfl _ s t hR⟩

/-- While a request is sent, the response is what it was before. -/
def Sending (k : ℕ) (request : Unalix.HTTPRequest) (response : Unalix.HTTPResponse)
    (rest : Multiset (ℕ × Block)) (c : Unalix.HTTPContext) (m : Filling HTTPContext) : Prop :=
  c.request = request ∧ c.response = response ∧ HoldsContext k rest c m

section Sending

variable {request : Unalix.HTTPRequest} {response : Unalix.HTTPResponse}

theorem Sending.failed (e : Failure) (c : Unalix.HTTPContext) (m : Filling HTTPContext)
    (hm : Sending k request response rest c m) : Failed k rest e c m :=
  hm.2.2.failed

theorem Sending.setConnection (f : Connection → Connection) (c : Unalix.HTTPContext)
    (m : Filling HTTPContext) (hm : Sending k request response rest c m) :
    Sending k request response rest { c with connection := f c.connection }
      { m with obj := { m.obj with connection := f m.obj.connection } } :=
  ⟨hm.1, hm.2.1, hm.2.2.setConnection f⟩

/-- The received head is parsed into the context, at the end of a request. -/
theorem parseResponse_refines (hbody : response.body = []) (headers : Bytes) :
    Refines (Sending k request response rest)
      (ofOutcome (Unalix.parseHttpResponse response headers) >>= fun response =>
        modify fun c : Unalix.HTTPContext => { c with response := response })
      (responsePart.run (parseHttpResponse headers)) (fun _ _ => HoldsContext k rest)
      (Failed k rest) := by
  rintro c m ⟨-, rfl, hm⟩
  have hparse := parseResponse_simulates hbody headers m hm
  cases hr : Unalix.parseHttpResponse c.response headers with
  | ok response =>
    rw [hr] at hparse
    obtain ⟨_, m', hrun, hm'⟩ := hparse
    exact ⟨(), m', hrun, hm'⟩
  | error e =>
    rw [hr] at hparse
    exact hparse

end Sending

/-- **`http_request_send` in memory**, with a context whose response has no body yet. The byte behind
the buffer is accessed when a request without a body is printed, also when an error comes after it. -/
theorem httpRequestSend_refines (exchange : Exchange) (timeout : ℤ)
    (request : Unalix.HTTPRequest) :
    Refines (fun c m => (c.request = request ∧ c.connection.timeout = timeout ∧
        c.response.body = []) ∧ HoldsContext k rest c m)
      (Unalix.httpRequestSend exchange) (httpRequestSend exchange)
      (fun _ _ => HoldsContext (k + strayBytes exchange timeout request) rest)
      (Failed (k + strayBytes exchange timeout request) rest) := by
  unfold Unalix.httpRequestSend httpRequestSend
  refine Refines.get fun c m ⟨⟨hrequest, htimeout, hbody⟩, hm⟩ => ?_
  subst hrequest htimeout
  have htimeout : m.obj.connection.timeout = c.connection.timeout := by
    obtain ⟨p, rfl, hobj, -⟩ := hm
    rw [hobj]
    rfl
  -- before the request is printed, no byte outside is accessed
  have hunprinted (h : ¬ Printed exchange c.connection.timeout c.request) (e : Failure)
      (s : Unalix.HTTPContext) (t : Filling HTTPContext)
      (hR : Sending k c.request c.response rest s t) :
      Failed (k + strayBytes exchange c.connection.timeout c.request) rest e s t := by
    rw [strayBytes, if_neg fun hp => h hp.1, add_zero]
    exact Sending.failed e s t hR
  refine Refines.step (S := fun uri s t => uri = c.request.uri ∧
    Sending k c.request c.response rest s t) ?_ fun uri => ?_
  · rintro _ _ ⟨rfl, rfl⟩
    exact ⟨_, _, hm.readUri, rfl, rfl, rfl, hm⟩
  refine Refines.assume ?_
  rintro rfl
  refine refines_ofOutcome_bind (fun e he => hunprinted (fun h => ?_) e) fun _ hport => ?_
  · rw [h.1] at he
    cases he
  refine refines_require_bind (fun hfalse => hunprinted fun h => ?_) fun hresolved => ?_
  · exact Bool.false_ne_true (hfalse.symm.trans h.2.1)
  refine Refines.bind (Q := fun _ _ => Sending k c.request c.response rest)
    (Refines.change (Sending.setConnection fun connection => { connection with
      fd := socketResult exchange.socket
      calls := connection.calls ++ (exchange.socket.map FdCall.socket).toList })) fun _ _ => ?_
  refine refines_require_bind (fun hfalse => hunprinted fun h => ?_) fun hsocket => ?_
  · exact Bool.false_ne_true (hfalse.symm.trans h.2.2.1)
  rw [htimeout]
  refine refines_require_bind (fun hfalse => hunprinted fun h => ?_) fun hset => ?_
  · exact Bool.false_ne_true (hfalse.symm.trans h.2.2.2.1)
  refine refines_require_bind (fun hfalse => hunprinted fun h => ?_) fun hconnected => ?_
  · exact Bool.false_ne_true (hfalse.symm.trans h.2.2.2.2)
  have hcount : strayBytes exchange c.connection.timeout c.request =
      if c.request.body = [] then 1 else 0 := by
    rw [strayBytes]
    simp only [show Printed exchange c.connection.timeout c.request from
      ⟨hport, hresolved, hsocket, hset, hconnected⟩, true_and]
  rw [hcount]
  generalize hk : (k + if c.request.body = [] then 1 else 0) = k'
  generalize hsent : (Unalix.httpRequestStringify c.request).1 = sent
  -- the buffer is allocated, and freed when it is sent
  refine Refines.bind (Q := fun _ buffer s t =>
    ∃ b, Sending k' sent c.response ((buffer, b) ::ₘ rest) s t) ?_ fun _ buffer => ?_
  · rintro s t ⟨hrequest, hresponse, ht⟩
    obtain ⟨a, m', hrun, hm'⟩ := ht.stringify
    rw [← hrequest] at hk hsent
    rw [hk] at hm'
    exact ⟨a, m', hrun, _, hsent, hresponse, hm'⟩
  refine refines_ofOutcome_bind ?_ fun scheme _ => ?_
  · rintro e he s t -
    cases hscheme : c.request.uri.scheme with
    | none =>
      rw [hscheme] at he
      cases he
      exact failed_fault _ _ _
    | some scheme =>
      rw [hscheme] at he
      cases he
  refine Refines.bind (Q := fun _ _ s t =>
    ∃ b, Sending k' sent c.response ((buffer, b) ::ₘ rest) s t) ?_ fun _ _ => ?_
  · refine Refines.change ?_
    rintro s t ⟨b, hR⟩
    exact ⟨b, Sending.setConnection (fun connection => { connection with
      isInitialized := connection.isInitialized || decide (scheme = httpsScheme) }) s t hR⟩
  refine Refines.step (S := fun _ => Sending k' sent c.response rest) ?_ fun _ => ?_
  · rintro s t ⟨b, hrequest, hresponse, ht⟩
    obtain ⟨m', hrun, hm'⟩ := ht.freeBuffer
    exact ⟨(), m', hrun, hrequest, hresponse, hm'⟩
  refine refines_require_bind (fun _ => Sending.failed) fun _ => ?_
  refine Refines.bind (Q := fun _ _ => Sending k' sent c.response rest)
    (Refines.change (Sending.setConnection fun connection => { connection with
      incoming := (receiveHead (decide (scheme = httpsScheme)) exchange.stale []
        exchange.incoming).2 })) fun _ _ => ?_
  refine refines_ofOutcome_bind (fun e _ => Sending.failed e) fun headers _ => ?_
  exact parseResponse_refines hbody headers

/-- **`http_get_redirect` in memory**: it allocates the URL to follow, if there is one. -/
theorem httpGetRedirect_simulates (p : PlacedContext) :
    Simulates (fun h => Holds k h (p.cells + rest)) (httpGetRedirect p.record)
      (Unalix.httpGetRedirect p.value)
      (fun dst a h => ∃ t : PlacedText, t.record = a ∧ t.value = dst ∧
        Holds k h (t.cells + (p.cells + rest)))
      (fun _ h => Holds k h (p.cells + rest)) := by
  intro h hh
  have hrequest : readRequest p.request.record h = .ok p.request.value h := by
    rw [PlacedContext.cells, add_assoc] at hh
    exact readRequest_eq hh
  have hresponse : readResponse p.response.record h = .ok p.response.value h :=
    readResponse_eq hh ((Multiset.le_add_left _ _).trans (Multiset.le_add_right _ _))
  have hvalue : httpGetRedirect p.record h =
      (ofOutcome (Unalix.httpGetRedirect p.value) >>= allocText) h :=
    (run_bind_of_ok hrequest _).trans (run_bind_of_ok hresponse _)
  rw [hvalue]
  cases hr : Unalix.httpGetRedirect p.value with
  | ok dst =>
    obtain ⟨t, h', halloc, ht, hh⟩ := exists_allocText hh dst
    exact ⟨t.record, h', halloc, t, rfl, ht, hh⟩
  | error e => exact ⟨h, rfl, hh⟩

end Spec

end Unalix.OnHeap
