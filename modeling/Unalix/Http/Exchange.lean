import Unalix.Foundations.Simulation
import Unalix.Http.Response

/-!
# HTTP exchanges (`http.c`)

`http_request_send` connects to the host of a request, sends the request and receives until the
end of the head; `http_response_read` receives the rest of the body. What the network does is an
`Exchange`: the results of the system calls, and the bytes that arrive. The response that a server
gives is a matter of these bytes alone (`Exchange.body`), and an exchange that succeeds ends with
it (`httpExchange_eq_ok`).
-/

namespace Unalix

open CString Ascii Outcome Calls

/-! ## Results of system calls -/

/-- The errors that `br_ssl_engine_last_error` is compared with. -/
inductive SslError
  | ok | io | other
  deriving DecidableEq, Repr

/-- The result of `recv` or `br_sslio_read`; no bytes are the end of the stream. -/
inductive Received
  | chunk (bytes : Bytes)
  | failed (error : SslError)
  deriving DecidableEq, Repr

/-- What the network does in an exchange. `resolved` stands for an address, numeric or from
`getaddrinfo`; `stale` is what the buffer for the head holds before, and what lies behind it. -/
structure Exchange where
  resolved : Bool := true
  socket : Option ℕ := some 3
  timeoutSet : Bool := true
  connected : Bool := true
  sent : Bool := true
  incoming : List Received := []
  stale : Bytes := []
  deriving DecidableEq, Repr

/-- The calls that create and close descriptors; a call of `socket` that fails creates none. -/
inductive FdCall
  | socket (fd : ℕ)
  | close (fd : ℤ)
  deriving DecidableEq, Repr

/-- `struct Connection`, with what can still be received on it, and the calls for its
descriptors. -/
structure Connection where
  fd : ℤ := 0
  timeout : ℤ := 0
  isInitialized : Bool := false
  incoming : List Received := []
  calls : List FdCall := []
  deriving DecidableEq, Repr

/-- `struct HTTPContext`. -/
structure HTTPContext where
  request : HTTPRequest := {}
  response : HTTPResponse := {}
  connection : Connection := {}

section Codes

variable {σ α : Type}

/-- The value of a call that does not depend on the state. -/
def ofOutcome (r : Outcome α) : EStateM Failure σ α :=
  match r with
  | .ok a => pure a
  | .error e => throw e

/-- Return an error code unless a condition holds. -/
def require (condition : Bool) (e : ErrorCode) : EStateM Failure σ Unit :=
  if condition then pure () else throw (.code e)

@[simp] theorem ofOutcome_eq_ok {r : Outcome α} {a : α} {s s' : σ} :
    (ofOutcome r : EStateM Failure σ α) s = .ok a s' ↔ r = .ok a ∧ s = s' := by
  cases r <;> simp [ofOutcome]

@[simp] theorem require_eq_ok {condition : Bool} {e : ErrorCode} {s s' : σ} {u : Unit} :
    (require condition e : EStateM Failure σ Unit) s = .ok u s' ↔ condition = true ∧ s = s' := by
  cases condition <;> simp [require]

@[simp] theorem require_eq_error {condition : Bool} {e : ErrorCode} {f : Failure} {s s' : σ} :
    (require condition e : EStateM Failure σ Unit) s = .error f s' ↔
      condition = false ∧ .code e = f ∧ s = s' := by
  cases condition <;> simp [require]

theorem run_ofOutcome_bind {β : Type} (a : α) (k : α → EStateM Failure σ β) (s : σ) :
    (ofOutcome (.ok a) >>= k) s = k a s := rfl

theorem run_require_bind {β : Type} (e : ErrorCode) (k : Unit → EStateM Failure σ β) (s : σ) :
    (require true e >>= k) s = k () s := rfl

theorem keeps_ofOutcome {γ : Type} (f : σ → γ) (r : Outcome α) :
    Keeps f (ofOutcome r : EStateM Failure σ α) := by
  cases r <;> exact fun _ => rfl

theorem keeps_require {γ : Type} (f : σ → γ) (condition : Bool) (e : ErrorCode) :
    Keeps f (require condition e : EStateM Failure σ Unit) := by
  cases condition <;> exact fun _ => rfl

/-- What is done behind a call, whatever code it returns. A call that has crashed does not come
back. -/
def thenAlways (x : EStateM Failure σ α) (y : EStateM Failure σ Unit) : EStateM Failure σ α :=
  fun s =>
    match x s with
    | .ok a s => (y >>= fun _ => pure a) s
    | .error (.code e) s => (y >>= fun _ => throw (.code e)) s
    | .error (.fault f) s => .error (.fault f) s

section Always

variable {x : EStateM Failure σ α} {y : EStateM Failure σ Unit} {s s₁ s' : σ}

theorem thenAlways_of_ok {a : α} (hx : x s = .ok a s₁) (hy : y s₁ = .ok () s') :
    thenAlways x y s = .ok a s' := by
  rw [thenAlways, hx]
  exact run_bind_of_ok hy _

theorem thenAlways_of_code {e : ErrorCode} (hx : x s = .error (.code e) s₁)
    (hy : y s₁ = .ok () s') : thenAlways x y s = .error (.code e) s' := by
  rw [thenAlways, hx]
  exact run_bind_of_ok hy _

theorem thenAlways_of_fault {f : Fault} (hx : x s = .error (.fault f) s') :
    thenAlways x y s = .error (.fault f) s' := by
  rw [thenAlways, hx]

end Always

/-! ### Crashes -/

/-- The call has left the defined behaviour of C: it does not return. -/
def Crashed (r : EStateM.Result Failure σ α) : Prop := ∃ f s, r = .error (.fault f) s

@[simp] theorem not_crashed_ok (a : α) (s : σ) :
    ¬ Crashed (.ok a s : EStateM.Result Failure σ α) := by
  rintro ⟨f, s', h⟩
  cases h

@[simp] theorem not_crashed_code (e : ErrorCode) (s : σ) :
    ¬ Crashed (.error (.code e) s : EStateM.Result Failure σ α) := by
  rintro ⟨f, s', h⟩
  cases h

@[simp] theorem crashed_fault (f : Fault) (s : σ) :
    Crashed (.error (.fault f) s : EStateM.Result Failure σ α) := ⟨f, s, rfl⟩

/-- A sequence crashes when the first call does, or the second after it. -/
theorem crashed_bind_iff {β : Type} {x : EStateM Failure σ α} {k : α → EStateM Failure σ β} {s : σ} :
    Crashed ((x >>= k) s) ↔ Crashed (x s) ∨ ∃ a s₁, x s = .ok a s₁ ∧ Crashed (k a s₁) := by
  rw [run_bind]
  rcases x s with ⟨a, s₁⟩ | ⟨_ | f, s₁⟩ <;> simp

theorem crashed_ofOutcome_bind_iff {β : Type} {r : Outcome α} {k : α → EStateM Failure σ β} {s : σ} :
    Crashed ((ofOutcome r >>= k) s) ↔ ¬ Returns r ∨ ∃ a, r = .ok a ∧ Crashed (k a s) := by
  rcases r with (e | f) | a
  · refine iff_of_false (not_crashed_code e s) ?_
    rintro (h | ⟨a, h, -⟩)
    · exact h (returns_fail e)
    · cases h
  · exact iff_of_true (crashed_fault f s) (.inl (not_returns_fault f))
  · simp only [returns_ok, not_true_eq_false, false_or, Except.ok.injEq, exists_eq_left']
    rfl

theorem crashed_require_bind_iff {β : Type} {condition : Bool} {e : ErrorCode}
    {k : Unit → EStateM Failure σ β} {s : σ} :
    Crashed ((require condition e >>= k) s) ↔ condition = true ∧ Crashed (k () s) := by
  cases condition with
  | false => exact iff_of_false (not_crashed_code e s) fun h => absurd h.1 nofun
  | true => exact ⟨fun h => ⟨rfl, h⟩, fun h => h.2⟩

/-- The call crashes on no state. -/
def NeverCrashes (x : EStateM Failure σ α) : Prop := ∀ s, ¬ Crashed (x s)

namespace NeverCrashes

theorem pure (a : α) : NeverCrashes (Pure.pure a : EStateM Failure σ α) := not_crashed_ok a

theorem code (e : ErrorCode) :
    NeverCrashes (MonadExcept.throw (Failure.code e) : EStateM Failure σ α) := not_crashed_code e

theorem require (condition : Bool) (e : ErrorCode) :
    NeverCrashes (Unalix.require condition e : EStateM Failure σ Unit) := by
  cases condition with
  | false => exact code e
  | true => exact pure ()

theorem ofOutcome {r : Outcome α} (h : Returns r) :
    NeverCrashes (Unalix.ofOutcome r : EStateM Failure σ α) := by
  rcases r with (e | f) | a
  · exact code e
  · exact absurd rfl (h f)
  · exact pure a

theorem of_neverFails {x : EStateM Failure σ α} (h : NeverFails x) : NeverCrashes x :=
  fun s ⟨_, s', hx⟩ => h s _ s' hx

theorem bind {β : Type} {x : EStateM Failure σ α} {k : α → EStateM Failure σ β}
    (hx : NeverCrashes x) (hk : ∀ a, NeverCrashes (k a)) : NeverCrashes (x >>= k) := by
  intro s h
  rcases crashed_bind_iff.1 h with h | ⟨a, s₁, -, h⟩
  · exact hx s h
  · exact hk a s₁ h

/-- What comes after a call and never crashes makes no difference. -/
theorem bind_iff {β : Type} (x : EStateM Failure σ α) {k : α → EStateM Failure σ β}
    (hk : ∀ a, NeverCrashes (k a)) (s : σ) : Crashed ((x >>= k) s) ↔ Crashed (x s) := by
  rw [crashed_bind_iff]
  refine or_iff_left ?_
  rintro ⟨a, s₁, -, h⟩
  exact hk a s₁ h

end NeverCrashes

end Codes

/-! ## Contexts -/

def httpHeaderUserAgent : Bytes := str "User-Agent"

def httpHeaderAccept : Bytes := str "Accept"

def httpDefaultUserAgent : Bytes :=
  str "libunalix/0.1 (+https://github.com/AmanoTeam/libunalix)"

def httpDefaultTimeout : ℤ := 8

/-- `OK` of `enum HTTPStatusCode`. -/
def statusOk : ℤ := 200

/-- `http_request_set_url` on a context. -/
def contextSetUrl (url : Bytes) : EStateM Failure HTTPContext Unit := do
  let context ← get
  let request ← ofOutcome (httpRequestSetUrl context.request url)
  set { context with request := request }

/-- `http_request_add_header` on a context. -/
def contextAddHeader (key value : Bytes) : EStateM Failure HTTPContext Unit :=
  modify fun context =>
    { context with request := httpRequestAddHeader context.request key value }

/-- `http_headers_free`; the length of the printed headers stays. -/
def httpHeadersFree (obj : HTTPHeaders) : HTTPHeaders := { obj with size := 0, items := [] }

/-- `connection_free`. -/
def connectionFree (obj : Connection) : Connection :=
  { obj with calls := obj.calls ++ [.close obj.fd] }

/-- `http_request_free`. -/
def httpRequestFree (obj : HTTPRequest) : HTTPRequest where
  headers := httpHeadersFree obj.headers

/-- `http_response_free`. -/
def httpResponseFree (obj : HTTPResponse) : HTTPResponse where
  headers := httpHeadersFree obj.headers

/-- `http_context_free`. -/
def httpContextFree (context : HTTPContext) : HTTPContext where
  request := httpRequestFree context.request
  response := httpResponseFree context.response
  connection := connectionFree context.connection

/-- A context behind a call: it is freed whatever the code is, but a call that has crashed does not
come back. -/
def freeAfter {α : Type} (result : Outcome α) (context : HTTPContext) : HTTPContext :=
  match result with
  | .error (.fault _) => context
  | _ => httpContextFree context

theorem freeAfter_of_returns {α : Type} {result : Outcome α} (h : Returns result)
    (context : HTTPContext) : freeAfter result context = httpContextFree context := by
  rcases result with (_ | f) | _
  · rfl
  · exact absurd rfl (h f)
  · rfl

/-! ## Sending a request -/

def maxHeadersSize : ℕ := 10240

/-- `find_crlfcrlf`: each of the first `bufferSize` positions is compared, with the bytes that lie
there whether they were received or not. -/
def findCrlfcrlf (memory : Bytes) (bufferSize : ℕ) : Bool :=
  (List.range bufferSize).any fun index => crlfcrlf <+: memory.drop index

/-- The loop of `http_request_send`: the bytes up to the end of the head, and what is left. -/
def receiveHead (isHttps : Bool) (stale : Bytes) :
    Bytes → List Received → Outcome Bytes × List Received
  | headers, [] => (endOfStream headers, [])
  | headers, .failed error :: rest =>
    if isHttps then
      (if error ≠ .io then fail .sslFailure else .ok headers, rest)
    else (fail .socketRecvFailure, rest)
  | headers, .chunk bytes :: rest =>
    if bytes = [] then (endOfStream headers, rest)
    else if maxHeadersSize < headers.length + bytes.length then (fail .httpHeadersTooBig, rest)
    else if findCrlfcrlf (headers ++ bytes ++ stale.drop (headers.length + bytes.length))
        (headers.length + bytes.length) then
      (.ok (headers ++ bytes), rest)
    else receiveHead isHttps stale (headers ++ bytes) rest
where
  /-- The stream may not end before its first byte. -/
  endOfStream (headers : Bytes) : Outcome Bytes :=
    if headers = [] then fail (if isHttps then .sslFailure else .socketRecvFailure)
    else .ok headers

/-- What `socket` returns: a descriptor, or `-1`. -/
def socketResult (socket : Option ℕ) : ℤ := socket.elim (-1) fun fd => (fd : ℤ)

/-- The port of an address: only the two schemes have a default. -/
def checkPort (uri : URI) : Outcome Unit :=
  if uri.port = 0 then do
    let scheme ← deref uri.scheme
    if scheme = httpScheme ∨ scheme = httpsScheme then return ()
    else fail .uriSchemeInvalid
  else .ok ()

/-- `http_request_send`. -/
def httpRequestSend (exchange : Exchange) : EStateM Failure HTTPContext Unit := do
  let context ← get
  ofOutcome (checkPort context.request.uri)
  require exchange.resolved .dnsGaiFailure
  modify fun context => { context with connection := { context.connection with
    fd := socketResult exchange.socket
    calls := context.connection.calls ++ (exchange.socket.map FdCall.socket).toList } }
  require exchange.socket.isSome .socketFailure
  require (decide (context.connection.timeout ≤ 0) || exchange.timeoutSet) .socketSetoptFailure
  require exchange.connected .socketConnectFailure
  modify fun context => { context with request := (httpRequestStringify context.request).1 }
  let scheme ← ofOutcome (deref context.request.uri.scheme)
  let isHttps : Bool := scheme = httpsScheme
  modify fun context => { context with connection := { context.connection with
    isInitialized := context.connection.isInitialized || isHttps } }
  require exchange.sent (if isHttps then .sslFailure else .socketSendFailure)
  let received := receiveHead isHttps exchange.stale [] exchange.incoming
  modify fun context => { context with connection := { context.connection with
    incoming := received.2 } }
  let headers ← ofOutcome received.1
  let response ← ofOutcome (parseHttpResponse context.response headers)
  modify fun context => { context with response := response }

/-! ## Reading a body -/

/-- `http_response_read` without a file: the bytes are appended to the content of the body. -/
def receiveBody (isHttps : Bool) : Bytes → List Received → Outcome Bytes × List Received
  | content, [] => (.ok content, [])
  | content, .failed error :: rest =>
    if isHttps then
      (if error ≠ .io ∧ error ≠ .ok then fail .sslFailure else .ok content, rest)
    else (fail .socketRecvFailure, rest)
  | content, .chunk bytes :: rest =>
    if bytes = [] then (.ok content, rest)
    else receiveBody isHttps (content ++ bytes) rest

/-- Whether the connection of a context is encrypted. -/
def isHttpsContext (context : HTTPContext) : Outcome Bool := do
  let scheme ← deref context.request.uri.scheme
  return scheme = httpsScheme

/-- `http_response_read` with no file. -/
def httpResponseRead : EStateM Failure HTTPContext Unit := do
  let context ← get
  let isHttps ← ofOutcome (isHttpsContext context)
  let received := receiveBody isHttps context.response.body context.connection.incoming
  modify fun context => { context with connection := { context.connection with
    incoming := received.2 } }
  let content ← ofOutcome received.1
  modify fun context => { context with response := { context.response with body := content } }

/-- One of the two exchanges of `ruleset_update`, up to its status. -/
def fetch (exchange : Exchange) (url accept : Bytes) : EStateM Failure HTTPContext Unit := do
  contextSetUrl url
  contextAddHeader httpHeaderUserAgent httpDefaultUserAgent
  contextAddHeader httpHeaderAccept accept
  httpRequestSend exchange
  let context ← get
  require (context.response.status.code = statusOk) .httpBadStatusCode

/-! ## The response in a stream of bytes -/

/-- The bytes that arrive up to the end of the stream. -/
def streamOf : List Received → Bytes
  | [] => []
  | .failed _ :: _ => []
  | .chunk bytes :: rest => if bytes = [] then [] else bytes ++ streamOf rest

/-- The number between the first two spaces after the first slash of a head. -/
def statusCodeOf (head : Bytes) : ℤ := atoi (before space (statusPart head))

namespace Exchange

/-- The body of the response: what follows the first empty line. -/
def body (exchange : Exchange) : Option Bytes :=
  (strstr (streamOf exchange.incoming) crlfcrlf).map (List.drop crlfcrlf.length)

/-- The status code of the response. -/
def statusCode (exchange : Exchange) : ℤ := statusCodeOf (headOf (streamOf exchange.incoming))

end Exchange

/-- The end of the head is found when it is in the bytes that were received. -/
theorem findCrlfcrlf_of_infix {headers : Bytes} (h : crlfcrlf <:+: headers) (x : Bytes) :
    findCrlfcrlf (headers ++ x) headers.length = true := by
  have htake : crlfcrlf <:+: (headers ++ x).take headers.length := by rwa [List.take_left]
  obtain ⟨index, hend, hat⟩ := exists_prefix_drop_of_infix_take htake
  have hpos : 0 < crlfcrlf.length := by decide
  rw [findCrlfcrlf, List.any_eq_true]
  exact ⟨index, List.mem_range.2 (by omega), decide_eq_true hat⟩

/-- **Receiving a head**: when the end of the head is in the bytes that are returned, they and what
is left are the stream. The invariant is that the end of the head has not been received yet. -/
theorem streamOf_receiveHead {isHttps : Bool} {stale headers buffer : Bytes}
    {incoming rest : List Received} (hnot : ¬ crlfcrlf <:+: headers)
    (h : receiveHead isHttps stale headers incoming = (.ok buffer, rest))
    (hend : crlfcrlf <:+: buffer) :
    headers ++ streamOf incoming = buffer ++ streamOf rest := by
  have hstop {headers' : Bytes} (h : receiveHead.endOfStream isHttps headers' = .ok buffer) :
      headers' = buffer := by
    unfold receiveHead.endOfStream at h
    by_cases hnil : headers' = []
    · rw [if_pos hnil] at h
      exact absurd h (fail_ne_ok _ _)
    · rw [if_neg hnil] at h
      exact Except.ok.inj h
  induction incoming generalizing headers with
  | nil =>
    rw [receiveHead, Prod.mk.injEq] at h
    exact absurd (hstop h.1 ▸ hend) hnot
  | cons received incoming ih =>
    cases received with
    | failed error =>
      rw [receiveHead] at h
      split_ifs at h
      · exact absurd (Prod.mk.inj h).1 (fail_ne_ok _ _)
      · exact absurd (Except.ok.inj (Prod.mk.inj h).1 ▸ hend) hnot
      · exact absurd (Prod.mk.inj h).1 (fail_ne_ok _ _)
    | chunk bytes =>
      rw [receiveHead] at h
      split_ifs at h with hempty hbig hfound
      · exact absurd (hstop (Prod.mk.inj h).1 ▸ hend) hnot
      · exact absurd (Prod.mk.inj h).1 (fail_ne_ok _ _)
      · obtain ⟨hbuffer, rfl⟩ := Prod.mk.inj h
        rw [← Except.ok.inj hbuffer, streamOf, if_neg hempty, List.append_assoc]
      · have hnot' : ¬ crlfcrlf <:+: headers ++ bytes := by
          intro hin
          apply hfound
          rw [← List.length_append]
          exact findCrlfcrlf_of_infix hin _
        rw [streamOf, if_neg hempty, ← List.append_assoc]
        exact ih hnot' h

/-- **Receiving a body**: on success the rest of the stream is appended. -/
theorem receiveBody_eq_ok {isHttps : Bool} {content content' : Bytes}
    {incoming rest : List Received}
    (h : receiveBody isHttps content incoming = (.ok content', rest)) :
    content' = content ++ streamOf incoming := by
  induction incoming generalizing content with
  | nil =>
    rw [receiveBody, Prod.mk.injEq] at h
    rw [streamOf, List.append_nil, Except.ok.inj h.1]
  | cons received incoming ih =>
    cases received with
    | failed error =>
      rw [streamOf, List.append_nil]
      rw [receiveBody] at h
      split_ifs at h
      · exact absurd (Prod.mk.inj h).1 (fail_ne_ok _ _)
      · exact (Except.ok.inj (Prod.mk.inj h).1).symm
      · exact absurd (Prod.mk.inj h).1 (fail_ne_ok _ _)
    | chunk bytes =>
      rw [receiveBody] at h
      rw [streamOf]
      split_ifs at h ⊢ with hempty
      · rw [List.append_nil]
        exact (Except.ok.inj (Prod.mk.inj h).1).symm
      · rw [ih h, List.append_assoc]

/-! ## The parsed response -/

theorem code_of_parseStatus {statusCode : Bytes} {status : HTTPStatus}
    (h : parseStatus statusCode = .ok status) : status.code = atoi statusCode := by
  unfold parseStatus at h
  split_ifs at h
  · exact absurd h (fail_ne_ok _ _)
  · exact absurd h (fail_ne_ok _ _)
  · split at h
    · exact absurd h (fail_ne_ok _ _)
    · rw [← Except.ok.inj h]

theorem code_of_parseHead {obj obj' : HTTPResponse} {head : Bytes}
    (h : parseHead obj head = .ok obj') :
    obj'.status.code = statusCodeOf head ∧ obj'.body = obj.body := by
  obtain ⟨-, hstatus, -, -, -, hbody⟩ := parseHead_eq_ok h
  exact ⟨code_of_parseStatus hstatus, hbody⟩

/-- A response that was parsed: its empty line, its status and its first part of the body. -/
theorem parseHttpResponse_eq_ok {obj obj' : HTTPResponse} {buffer : Bytes}
    (h : parseHttpResponse obj buffer = .ok obj') (hbody : obj.body = []) :
    strstr buffer crlfcrlf = some (crlfcrlf ++ obj'.body) ∧
      obj'.status.code = statusCodeOf (headOf buffer) := by
  simp only [parseHttpResponse, bind_eq_ok, deref_eq_ok] at h
  obtain ⟨separator, hseparator, size, hsize, body, hbytes, obj₁, hhead, hreturn⟩ := h
  obtain ⟨head, hdata, ⟨rest, rfl⟩, -⟩ := exists_of_strstr hseparator
  obtain ⟨tail, htail⟩ : cString buffer <+: buffer := List.takeWhile_prefix _
  have hbuffer : buffer = head ++ (crlfcrlf ++ (rest ++ tail)) := by
    rw [← htail, hdata]
    simp
  have hfound : strstr buffer crlfcrlf = some (crlfcrlf ++ (rest ++ tail)) := by
    have := strstr_append_of_eq_some hseparator tail
    rwa [htail, List.append_assoc] at this
  rw [hdata, checkedSize_append] at hsize
  obtain rfl := Except.ok.inj hsize
  have hcut : buffer.drop (head.length + crlfcrlf.length) = rest ++ tail := by
    rw [hbuffer, ← List.append_assoc, ← List.length_append, List.drop_left]
  unfold bodyFrom at hbytes
  split_ifs at hbytes
  obtain rfl := (Except.ok.inj hbytes).symm.trans hcut
  rw [hdata, List.take_left] at hhead
  obtain ⟨hcode, hkept⟩ := code_of_parseHead hhead
  have hof : headOf buffer = head := by
    rw [headOf, hfound]
    simp only
    rw [hbuffer, List.length_append, Nat.add_sub_cancel, List.take_left]
  rw [← Except.ok.inj hreturn, hof]
  refine ⟨?_, hcode⟩
  rw [hfound, hkept, hbody]
  rcases rest ++ tail with _ | ⟨c, s⟩ <;> simp

/-! ## Exchanges that succeed -/

/-- A context after a head with status 200: what is in the body and what can still be received are
the body of the response. -/
structure Answered (exchange : Exchange) (context : HTTPContext) : Prop where
  status : exchange.statusCode = statusOk
  body : exchange.body = some (context.response.body ++ streamOf context.connection.incoming)

/-- The body of a response whose head was received. -/
theorem body_of_receiveHead {exchange : Exchange} {isHttps : Bool} {buffer : Bytes}
    {rest : List Received} {obj obj' : HTTPResponse} (hobj : obj.body = [])
    (hreceive : receiveHead isHttps exchange.stale [] exchange.incoming = (.ok buffer, rest))
    (hparse : parseHttpResponse obj buffer = .ok obj') :
    exchange.body = some (obj'.body ++ streamOf rest) ∧
      obj'.status.code = exchange.statusCode := by
  obtain ⟨hfound, hcode⟩ := parseHttpResponse_eq_ok hparse hobj
  obtain ⟨head, hbuffer, -, -⟩ := exists_of_strstr hfound
  have hend : crlfcrlf <:+: buffer := by
    by_contra hno
    rw [strstr_eq_none_iff.2 hno] at hfound
    cases hfound
  have hnot : ¬ crlfcrlf <:+: [] := by simp [crlfcrlf]
  have hstream := streamOf_receiveHead hnot hreceive hend
  rw [List.nil_append] at hstream
  have hfound' := strstr_append_of_eq_some hfound (streamOf rest)
  rw [← hstream, List.append_assoc] at hfound'
  refine ⟨?_, ?_⟩
  · rw [Exchange.body, hfound', Option.map_some, List.drop_left]
  · have hof : headOf (streamOf exchange.incoming) = headOf buffer := by
      simp only [headOf, hfound', hfound]
      rw [hstream, hbuffer]
      simp
    rw [hcode, Exchange.statusCode, hof]

/-- What `http_request_send` has done when it succeeds. -/
theorem httpRequestSend_eq_ok {exchange : Exchange} {context context' : HTTPContext}
    (h : httpRequestSend exchange context = .ok () context') :
    ∃ isHttps buffer, receiveHead isHttps exchange.stale [] exchange.incoming =
        (.ok buffer, context'.connection.incoming) ∧
      parseHttpResponse context.response buffer = .ok context'.response := by
  simp only [httpRequestSend, run_get_bind, run_modify_bind, run_bind_eq_ok, run_modify_eq_ok,
    ofOutcome_eq_ok, require_eq_ok] at h
  obtain ⟨_, _, ⟨-, rfl⟩, _, _, ⟨-, rfl⟩, _, _, ⟨-, rfl⟩, _, _, ⟨-, rfl⟩, _, _, ⟨-, rfl⟩, scheme, _,
    ⟨-, rfl⟩, _, _, ⟨-, rfl⟩, buffer, _, ⟨hbuffer, rfl⟩, response, _, ⟨hresponse, rfl⟩, rfl⟩ := h
  exact ⟨_, buffer, Prod.ext hbuffer rfl, hresponse⟩

/-- The part of a context that the first calls of an exchange keep. -/
theorem keeps_contextSetUrl (url : Bytes) :
    Keeps (fun context : HTTPContext => (context.response, context.connection))
      (contextSetUrl url) := by
  intro context
  rw [contextSetUrl, run_bind]
  change (fun context : HTTPContext => (context.response, context.connection))
    (final ((ofOutcome (httpRequestSetUrl context.request url) >>= fun request =>
      set { context with request := request }) context)) = _
  cases httpRequestSetUrl context.request url <;> rfl

theorem keeps_body_contextSetUrl (url : Bytes) :
    Keeps (fun context : HTTPContext => context.request.body) (contextSetUrl url) := by
  intro context
  rw [contextSetUrl, run_bind]
  change (final ((ofOutcome (httpRequestSetUrl context.request url) >>= fun request =>
    set { context with request := request }) context)).request.body = _
  rw [httpRequestSetUrl]
  cases uriParse context.request.uri url <;> rfl

theorem keeps_contextAddHeader (key value : Bytes) :
    Keeps (fun context : HTTPContext => (context.response, context.connection))
      (contextAddHeader key value) := fun _ => rfl

/-- **An exchange that succeeds** has received a head with status 200. -/
theorem answered_of_fetch {exchange : Exchange} {url accept : Bytes}
    {context context' : HTTPContext} (h : fetch exchange url accept context = .ok () context')
    (hbody : context.response.body = []) : Answered exchange context' := by
  simp only [fetch, run_bind_eq_ok, run_get_eq_ok, require_eq_ok] at h
  obtain ⟨_, c₁, h₁, _, c₂, h₂, _, c₃, h₃, _, c₄, hsend, _, _, ⟨rfl, rfl⟩, hstatus, rfl⟩ := h
  have hkept : c₃.response = context.response := by
    have hk₁ := (keeps_contextSetUrl url).ok h₁
    have hk₂ := (keeps_contextAddHeader _ _).ok h₂
    have hk₃ := (keeps_contextAddHeader _ _).ok h₃
    exact congrArg Prod.fst (hk₃.trans (hk₂.trans hk₁))
  obtain ⟨isHttps, buffer, hreceive, hparse⟩ := httpRequestSend_eq_ok hsend
  rw [hkept] at hparse
  obtain ⟨hstream, hcode⟩ := body_of_receiveHead hbody hreceive hparse
  exact ⟨hcode.symm.trans (of_decide_eq_true hstatus), hstream⟩

/-- **Reading the body** of a response into memory. -/
theorem body_of_httpResponseRead {exchange : Exchange} {context context' : HTTPContext}
    (hanswered : Answered exchange context) (h : httpResponseRead context = .ok () context') :
    exchange.body = some context'.response.body := by
  simp only [httpResponseRead, run_bind_eq_ok, run_get_eq_ok, run_modify_eq_ok,
    ofOutcome_eq_ok] at h
  obtain ⟨_, _, ⟨rfl, rfl⟩, isHttps, _, ⟨-, rfl⟩, _, _, rfl, content, _, ⟨hcontent, rfl⟩, rfl⟩ := h
  rw [hanswered.body]
  exact congrArg some (receiveBody_eq_ok (Prod.ext hcontent rfl)).symm

end Unalix
