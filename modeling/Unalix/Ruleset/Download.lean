import Unalix.Ruleset.Update

/-!
# Downloads, however the network cuts the stream

A response arrives as a stream of bytes that `recv` returns in pieces (`Cut`). The head is received
by `http_request_send`, together with the first part of the body, and the rest of the body by
`http_response_read`. What a download ends with is the same for all ways of cutting
(`download_independent`): after the connection has been opened (`openConnection`), the run is
determined by the head and by what follows it in the stream (`receiveResponse_cut`).
-/

namespace Unalix

open CString Ascii Outcome Calls

/-- `MAX_CHUNK_SIZE`. -/
def maxChunkSize : ℕ := 1024

/-- A stream as the results of `recv` up to its end. -/
structure Cut (stream : Bytes) where
  chunks : List Bytes
  flatten_eq : chunks.flatten = stream
  size : ∀ chunk ∈ chunks, 0 < chunk.length ∧ chunk.length ≤ maxChunkSize

/-- An exchange in which a stream arrives in these pieces, and the end of the head is looked for
in the bytes that were received. -/
def Exchange.receiving {stream : Bytes} (exchange : Exchange) (cut : Cut stream) : Exchange :=
  { exchange with incoming := cut.chunks.map .chunk, stale := [] }

/-! ## What is compared -/

/-- The end of a download into memory: an error, or the response. -/
def memoryResult (exchange : Exchange) (context : HTTPContext) : Outcome HTTPResponse :=
  match (httpRequestSend exchange >>= fun _ => httpResponseRead) context with
  | .ok _ context => .ok context.response
  | .error e _ => .error e

/-- The end of a download into a file: an error, or version, status and headers of the response;
and the content of the file. -/
def fileResult (exchange : Exchange) (stream : Stream) (w : World) :
    Outcome (HTTPVersion × HTTPStatus × HTTPHeaders) × Option Bytes :=
  match (contextPart.run (httpRequestSend exchange) >>= fun _ => httpResponseReadFile stream) w with
  | .ok _ w => (.ok (w.context.response.version, w.context.response.status,
      w.context.response.headers), w.files stream.path)
  | .error e w => (.error e, w.files stream.path)

/-- What follows the first empty line in `head ++ crlfcrlf ++ body`: a head that ends with CR LF
begins the empty line itself. -/
def bodyAfter (head body : Bytes) : Bytes := if crlf <:+ head then crlf ++ body else body

/-! ## Receiving the head -/

theorem findCrlfcrlf_iff {buffer : Bytes} :
    findCrlfcrlf buffer buffer.length = true ↔ crlfcrlf <:+: buffer := by
  constructor
  · intro h
    rw [findCrlfcrlf, List.any_eq_true] at h
    obtain ⟨index, -, hat⟩ := h
    exact (of_decide_eq_true hat).isInfix.trans (List.drop_suffix index buffer).isInfix
  · intro h
    have := findCrlfcrlf_of_infix h []
    rwa [List.append_nil] at this

/-- The empty line is in the received part of a stream when the whole head is. -/
theorem exists_of_infix_received {head received rest tail : Bytes}
    (hfind : strstr (head ++ crlfcrlf) crlfcrlf = some crlfcrlf)
    (hstream : received ++ rest = head ++ (crlfcrlf ++ tail)) (h : crlfcrlf <:+: received) :
    ∃ body, received = head ++ (crlfcrlf ++ body) ∧ body ++ rest = tail := by
  obtain ⟨t, ht⟩ : ∃ t, strstr received crlfcrlf = some t :=
    Option.ne_none_iff_exists'.1 fun hnone => strstr_eq_none_iff.1 hnone h
  have h₁ := strstr_append_of_eq_some ht rest
  have h₂ := strstr_append_of_eq_some hfind tail
  rw [List.append_assoc, ← hstream, h₁, Option.some.injEq] at h₂
  obtain ⟨a, rfl, ⟨body, rfl⟩, -⟩ := exists_of_strstr ht
  rw [List.append_assoc, List.append_cancel_left_eq] at h₂
  refine ⟨body, ?_, h₂⟩
  rw [← h₂, List.append_assoc, List.append_assoc] at hstream
  rw [List.append_cancel_right hstream]

/-- **The head of a stream is received in full**, with a first part of the rest. The invariant is
that no empty line has been received yet, so that the buffer has room for one more chunk. -/
theorem exists_receiveHead {isHttps : Bool} {head tail received : Bytes} {chunks : List Bytes}
    (hfind : strstr (head ++ crlfcrlf) crlfcrlf = some crlfcrlf)
    (hsize : head.length + crlfcrlf.length ≤ maxHeadersSize - maxChunkSize)
    (hchunks : ∀ chunk ∈ chunks, 0 < chunk.length ∧ chunk.length ≤ maxChunkSize)
    (hnot : ¬ crlfcrlf <:+: received)
    (hstream : received ++ chunks.flatten = head ++ (crlfcrlf ++ tail)) :
    ∃ (body : Bytes) (rest : List Bytes), receiveHead isHttps [] received (chunks.map .chunk) =
        (.ok (head ++ (crlfcrlf ++ body)), rest.map .chunk) ∧
      body ++ rest.flatten = tail ∧ ∀ chunk ∈ rest, 0 < chunk.length := by
  induction chunks generalizing received with
  | nil =>
    rw [List.flatten_nil, List.append_nil] at hstream
    exact absurd (hstream ▸ ⟨head, tail, by simp⟩) hnot
  | cons bytes chunks ih =>
    obtain ⟨⟨hpos, hle⟩, hchunks'⟩ := List.forall_mem_cons.1 hchunks
    rw [List.flatten_cons, ← List.append_assoc] at hstream
    have hempty : bytes ≠ [] := List.length_pos_iff.1 hpos
    have hshort : received.length < head.length + crlfcrlf.length := by
      by_contra hlong
      have hpre : head ++ crlfcrlf <+: received := by
        have h₁ : head ++ crlfcrlf <+: head ++ (crlfcrlf ++ tail) := ⟨tail, by simp⟩
        have h₂ : received <+: head ++ (crlfcrlf ++ tail) :=
          ⟨bytes ++ chunks.flatten, by rw [← hstream, List.append_assoc]⟩
        apply List.prefix_of_prefix_length_le h₁ h₂
        rw [List.length_append]
        omega
      exact hnot ((List.suffix_append head crlfcrlf).isInfix.trans hpre.isInfix)
    have hroom : ¬ maxHeadersSize < received.length + bytes.length := by
      simp only [maxHeadersSize, maxChunkSize] at *
      omega
    rw [List.map_cons, receiveHead, if_neg hempty, if_neg hroom, List.drop_nil, List.append_nil,
      ← List.length_append]
    split_ifs with hfound
    · obtain ⟨body, hreceived, hbody⟩ :=
        exists_of_infix_received hfind hstream (findCrlfcrlf_iff.1 hfound)
      exact ⟨body, chunks, by rw [hreceived], hbody, fun chunk hc => (hchunks' chunk hc).1⟩
    · exact ih hchunks' (fun h => hfound (findCrlfcrlf_iff.2 h)) hstream

/-! ## Receiving the rest -/

theorem receiveBody_chunks {isHttps : Bool} {content : Bytes} {chunks : List Bytes}
    (h : ∀ chunk ∈ chunks, 0 < chunk.length) :
    receiveBody isHttps content (chunks.map .chunk) = (.ok (content ++ chunks.flatten), []) := by
  induction chunks generalizing content with
  | nil => rw [List.map_nil, receiveBody, List.flatten_nil, List.append_nil]
  | cons bytes chunks ih =>
    obtain ⟨hpos, hchunks⟩ := List.forall_mem_cons.1 h
    rw [List.map_cons, receiveBody, if_neg (List.length_pos_iff.1 hpos), ih hchunks,
      List.append_assoc, List.flatten_cons]

theorem World.put_put (w : World) (path : Bytes) (a b : Option Bytes) :
    (w.put path a).put path b = w.put path b := by
  simp only [World.put, Function.update_idem]

theorem World.put_self {w : World} {path : Bytes} {content : Option Bytes}
    (h : w.files path = content) : w.put path content = w := by
  rw [World.put, ← h, Function.update_eq_self]

/-- A write that is not short succeeds. -/
theorem writeAll_of_fwrite {stream stream' : Stream} {bytes : Bytes} {written : ℕ} {w w' : World}
    (h : fwrite stream bytes w = .ok (written, stream') w') : writeAll stream bytes w =
      if written = bytes.length then .ok stream' w'
      else .error (.code .fileCannotWrite) w' := by
  rw [writeAll, run_bind, h]
  change (if written ≠ bytes.length then throw (.code .fileCannotWrite) else pure stream' :
    Call Stream) w' = _
  by_cases hshort : written = bytes.length
  · rw [if_neg (not_not.2 hshort), if_pos hshort]
    rfl
  · rw [if_pos hshort, if_neg hshort]
    rfl

/-- A write to a stream without a bound appends. -/
theorem writeAll_unbounded {path old : Bytes} {w : World} (hold : w.files path = some old)
    (bytes : Bytes) : writeAll ⟨path, none⟩ bytes w =
      .ok ⟨path, none⟩ (w.put path (some (old ++ bytes))) := by
  have hwrite : fwrite ⟨path, none⟩ bytes w =
      .ok (bytes.length, ⟨path, none⟩) (w.put path (some (old ++ bytes))) := by
    simp [fwrite, Stream.accepts, hold]
  rw [writeAll_of_fwrite hwrite, if_pos rfl]

/-- A write appends what there is room for. -/
theorem writeAll_bounded {path old : Bytes} {room : ℕ} {w : World}
    (hold : w.files path = some old) (bytes : Bytes) : writeAll ⟨path, some room⟩ bytes w =
      if bytes.length ≤ room then
        .ok ⟨path, some (room - bytes.length)⟩ (w.put path (some (old ++ bytes)))
      else .error (.code .fileCannotWrite) (w.put path (some (old ++ bytes.take room))) := by
  have hwrite : fwrite ⟨path, some room⟩ bytes w =
      .ok (min room bytes.length, ⟨path, some (room - min room bytes.length)⟩)
        (w.put path (some (old ++ bytes.take (min room bytes.length)))) := by
    simp [fwrite, Stream.accepts, hold]
  rw [writeAll_of_fwrite hwrite]
  by_cases h : bytes.length ≤ room
  · rw [if_pos h, if_pos (by omega), Nat.min_eq_right h, List.take_length]
  · rw [if_neg h, if_neg (by omega), Nat.min_eq_left (by omega)]

theorem exists_writeAll_eq {stream : Stream} {old : Bytes} {w : World}
    (hold : w.files stream.path = some old) (bytes : Bytes) :
    ∃ stream', writeAll stream bytes w =
      if stream.accepts bytes = bytes.length then
        .ok stream' (w.put stream.path (some (old ++ bytes)))
      else .error (.code .fileCannotWrite)
        (w.put stream.path (some (old ++ bytes.take (stream.accepts bytes)))) := by
  rcases stream with ⟨path, _ | room⟩
  · have haccepts : Stream.accepts ⟨path, none⟩ bytes = bytes.length := rfl
    exact ⟨⟨path, none⟩, by rw [writeAll_unbounded hold, if_pos haccepts]⟩
  · have haccepts : Stream.accepts ⟨path, some room⟩ bytes = min room bytes.length := rfl
    refine ⟨⟨path, some (room - bytes.length)⟩, ?_⟩
    rw [writeAll_bounded hold, haccepts]
    by_cases h : bytes.length ≤ room
    · rw [if_pos h, if_pos (by omega)]
    · rw [if_neg h, if_neg (by omega), Nat.min_eq_left (by omega)]

/-- Two writes are one, up to the first that is short. -/
theorem writeAll_append {stream : Stream} {old : Bytes} {w : World}
    (hold : w.files stream.path = some old) (a b : Bytes) :
    (writeAll stream a >>= fun stream => writeAll stream b) w = writeAll stream (a ++ b) w := by
  have hput : (w.put stream.path (some (old ++ a))).files stream.path = some (old ++ a) :=
    World.files_put_self w _ _
  rcases stream with ⟨path, _ | room⟩
  · rw [run_bind, writeAll_unbounded hold, writeAll_unbounded hold]
    simp only
    rw [writeAll_unbounded hput, World.put_put, List.append_assoc]
  · rw [run_bind, writeAll_bounded hold, writeAll_bounded hold, List.length_append]
    by_cases ha : a.length ≤ room
    · simp only [if_pos ha]
      rw [writeAll_bounded hput, World.put_put, World.put_put, List.append_assoc,
        List.append_assoc]
      by_cases hb : b.length ≤ room - a.length
      · rw [if_pos hb, if_pos (by omega), Nat.sub_sub]
      · rw [if_neg hb, if_neg (by omega), List.take_append, List.take_of_length_le ha]
    · simp only [if_neg ha]
      rw [if_neg (by omega), List.take_append_of_le_length (by omega)]

theorem writeAll_nil {stream : Stream} {old : Bytes} {w : World}
    (hold : w.files stream.path = some old) : writeAll stream [] w = .ok stream w := by
  rcases stream with ⟨path, _ | room⟩
  · rw [writeAll_unbounded hold, List.append_nil, World.put_self hold]
  · rw [writeAll_bounded hold, List.length_nil, if_pos (Nat.zero_le room),
      List.append_nil, World.put_self hold]
    rfl

/-- The loop of `http_response_read` is one write of the rest of the stream. -/
theorem receiveFile_chunks {isHttps : Bool} {chunks : List Bytes} {stream : Stream} {old : Bytes}
    {w : World} (h : ∀ chunk ∈ chunks, 0 < chunk.length)
    (hold : w.files stream.path = some old) :
    receiveFile isHttps (chunks.map .chunk) stream w =
      (writeAll stream chunks.flatten >>= fun _ => pure []) w := by
  induction chunks generalizing stream old w with
  | nil =>
    rw [List.map_nil, List.flatten_nil, run_bind, writeAll_nil hold]
    rfl
  | cons bytes chunks ih =>
    obtain ⟨hpos, hchunks⟩ := List.forall_mem_cons.1 h
    rw [List.map_cons, receiveFile, if_neg (List.length_pos_iff.1 hpos), List.flatten_cons,
      run_bind, run_bind (writeAll stream (bytes ++ chunks.flatten)),
      ← writeAll_append hold, run_bind (writeAll stream bytes)]
    rcases hwrite : writeAll stream bytes w with ⟨stream', w₁⟩ | ⟨e, w₁⟩
    · obtain ⟨hpath, rfl⟩ := writeAll_eq_ok hwrite
      have hput : (w.put stream.path (some ((w.files stream.path).getD [] ++ bytes))).files
          stream'.path = some ((w.files stream.path).getD [] ++ bytes) := by
        rw [hpath, World.files_put_self]
      simp only
      rw [ih hchunks hput, run_bind]
    · rfl

theorem writeBody_eq {stream : Stream} {old : Bytes} {w : World}
    (hold : w.files stream.path = some old) (body : Bytes) :
    writeBody stream body w = writeAll stream body w := by
  unfold writeBody
  split_ifs with hbody
  · rfl
  · have hnil : body = [] := List.length_eq_zero_iff.1 (by omega)
    rw [hnil, writeAll_nil hold]
    rfl

/-! ## The two parts of `http_request_send` -/

/-- The part of `http_request_send` before the response is received. -/
def openConnection (exchange : Exchange) : EStateM Failure HTTPContext Bool := do
  let context ← get
  ofOutcome (checkPort context.request.uri)
  require exchange.resolved .dnsGaiFailure
  modify fun context => { context with connection := { context.connection with
    fd := socketResult exchange.socket
    calls := context.connection.calls ++ (exchange.socket.map FdCall.socket).toList } }
  require exchange.socket.isSome .socketFailure
  require (decide (context.connection.timeout ≤ 0) || exchange.timeoutSet) .socketSetoptFailure
  require exchange.connected .socketConnectFailure
  modify fun context => { context with request := (httpRequestStringify context.request).1 }
  let scheme ← ofOutcome (deref context.request.uri.scheme)
  let isHttps : Bool := scheme = httpsScheme
  modify fun context => { context with connection := { context.connection with
    isInitialized := context.connection.isInitialized || isHttps } }
  require exchange.sent (if isHttps then .sslFailure else .socketSendFailure)
  return isHttps

/-- The part that receives the response. -/
def receiveResponse (response : HTTPResponse) (stale : Bytes) (incoming : List Received)
    (isHttps : Bool) : EStateM Failure HTTPContext Unit := do
  let received := receiveHead isHttps stale [] incoming
  modify fun context => { context with connection := { context.connection with
    incoming := received.2 } }
  let headers ← ofOutcome received.1
  let response ← ofOutcome (parseHttpResponse response headers)
  modify fun context => { context with response := response }

theorem httpRequestSend_run (exchange : Exchange) (context : HTTPContext) :
    httpRequestSend exchange context =
      (openConnection exchange >>=
        receiveResponse context.response exchange.stale exchange.incoming) context := by
  simp only [httpRequestSend, openConnection, bind_assoc, pure_bind, receiveResponse, run_get_bind]

/-- After the connection has been opened, the request has a scheme. -/
theorem openConnection_eq_ok {exchange : Exchange} {context context' : HTTPContext}
    {isHttps : Bool} (h : openConnection exchange context = .ok isHttps context') :
    context'.response = context.response ∧ ∃ scheme, context'.request.uri.scheme = some scheme := by
  simp only [openConnection, run_get_bind, run_modify_bind, run_bind_eq_ok, ofOutcome_eq_ok,
    require_eq_ok, run_pure_eq_ok] at h
  obtain ⟨_, _, ⟨-, rfl⟩, _, _, ⟨-, rfl⟩, _, _, ⟨-, rfl⟩, _, _, ⟨-, rfl⟩, _, _, ⟨-, rfl⟩, scheme, _,
    ⟨hscheme, rfl⟩, _, _, ⟨-, rfl⟩, -, rfl⟩ := h
  refine ⟨rfl, scheme, ?_⟩
  rw [deref_eq_ok] at hscheme
  exact (congrArg URI.scheme (uri_httpRequestStringify context.request)).trans hscheme

/-- A head before an empty line, with room for one more chunk in the buffer. -/
structure HeadOk (head : Bytes) : Prop where
  nul : 0 ∉ head
  found : strstr (head ++ crlfcrlf) crlfcrlf = some crlfcrlf
  size : head.length + crlfcrlf.length ≤ maxHeadersSize - maxChunkSize

/-- **Receiving a cut stream**: the outcome is that of parsing the head, and what has been received
of the rest is in the body. -/
theorem receiveResponse_cut {head tail : Bytes} (hhead : HeadOk head)
    (cut : Cut (head ++ (crlfcrlf ++ tail))) (response : HTTPResponse) (isHttps : Bool)
    (context : HTTPContext) :
    ∃ (body : Bytes) (rest : List Bytes), body ++ rest.flatten = tail ∧
      (∀ chunk ∈ rest, 0 < chunk.length) ∧
      receiveResponse response [] (cut.chunks.map .chunk) isHttps context =
        let context' := { context with connection :=
          { context.connection with incoming := rest.map .chunk } }
        match parseHead response head with
        | .ok obj => .ok () { context' with response :=
            { obj with body := if 0 < body.length then body else obj.body } }
        | .error e => .error e context' := by
  have hnot : ¬ crlfcrlf <:+: ([] : Bytes) := by simp [crlfcrlf]
  obtain ⟨body, rest, hreceive, htail, hrest⟩ :=
    @exists_receiveHead isHttps _ _ _ _ hhead.found hhead.size cut.size hnot cut.flatten_eq
  refine ⟨body, rest, htail, hrest, ?_⟩
  have hparse := @parseHttpResponse_cut response _ hhead.nul hhead.found body
  rcases hp : parseHead response head with e | obj
  · rw [hp] at hparse
    simp only [receiveResponse, hreceive, run_modify_bind, run_ofOutcome_bind, hparse]
    rfl
  · rw [hp] at hparse
    simp only [receiveResponse, hreceive, run_modify_bind, run_ofOutcome_bind, hparse]
    rfl

/-! ## Downloads -/

/-- What a download ends with as far as the head decides. -/
def downloadHead (exchange : Exchange) (head : Bytes) (context : HTTPContext) :
    Outcome HTTPResponse :=
  match openConnection exchange context with
  | .ok _ _ => parseHead context.response head
  | .error e _ => .error e

/-- A context that has received the head `obj` of a response, a first part of the rest `tail` of the
stream, and is to receive `rest`. -/
structure HeadReceived (obj : HTTPResponse) (tail : Bytes) (rest : List Bytes)
    (context : HTTPContext) : Prop where
  response : context.response = { obj with body := context.response.body }
  tail : context.response.body ++ rest.flatten = tail
  chunks : ∀ chunk ∈ rest, 0 < chunk.length
  incoming : context.connection.incoming = rest.map .chunk
  scheme : ∃ isHttps, isHttpsContext context = .ok isHttps

section Receiving

variable {exchange : Exchange} {head tail : Bytes} {context : HTTPContext} {obj : HTTPResponse}

theorem httpRequestSend_receiving (cut : Cut (head ++ (crlfcrlf ++ tail))) :
    httpRequestSend (exchange.receiving cut) context =
      (openConnection exchange >>=
        receiveResponse context.response [] (cut.chunks.map .chunk)) context :=
  httpRequestSend_run (exchange.receiving cut) context

/-- **Sending a request and receiving a cut stream.** -/
theorem httpRequestSend_of_ok (hhead : HeadOk head) (hbody : context.response.body = [])
    (cut : Cut (head ++ (crlfcrlf ++ tail)))
    (h : downloadHead exchange head context = .ok obj) :
    ∃ rest context', httpRequestSend (exchange.receiving cut) context = .ok () context' ∧
      HeadReceived obj tail rest context' := by
  unfold downloadHead at h
  rcases hopen : openConnection exchange context with ⟨isHttps, c⟩ | ⟨e, c⟩
  · rw [hopen] at h
    simp only at h
    obtain ⟨-, scheme, hscheme⟩ := openConnection_eq_ok hopen
    obtain ⟨body, rest, htail, hrest, hrun⟩ :=
      receiveResponse_cut hhead cut context.response isHttps c
    rw [h] at hrun
    have hcontent : (if 0 < body.length then body else obj.body) = body := by
      have hobj : obj.body = [] := (code_of_parseHead h).2.trans hbody
      rw [hobj]
      split_ifs with hpos
      · rfl
      · exact (List.length_eq_zero_iff.1 (by omega)).symm
    rw [httpRequestSend_receiving, run_bind, hopen]
    refine ⟨rest, _, hrun, ?_⟩
    refine ⟨rfl, ?_, hrest, rfl, decide (scheme = httpsScheme), ?_⟩
    · simp only
      rw [hcontent, htail]
    · simp only [isHttpsContext, hscheme, deref, ok_bind]
      rfl
  · rw [hopen] at h
    cases h

theorem httpRequestSend_of_error (hhead : HeadOk head) {e : Failure}
    (cut : Cut (head ++ (crlfcrlf ++ tail)))
    (h : downloadHead exchange head context = .error e) :
    ∃ context', httpRequestSend (exchange.receiving cut) context = .error e context' := by
  unfold downloadHead at h
  rw [httpRequestSend_receiving, run_bind]
  rcases hopen : openConnection exchange context with ⟨isHttps, c⟩ | ⟨e', c⟩
  · rw [hopen] at h
    simp only at h
    obtain ⟨body, rest, -, -, hrun⟩ := receiveResponse_cut hhead cut context.response isHttps c
    rw [h] at hrun
    exact ⟨_, hrun⟩
  · rw [hopen] at h
    exact ⟨c, by rw [Except.error.inj h]⟩

/-- **A download into memory** ends with the whole rest of the stream as the body. -/
theorem memoryResult_cut (hhead : HeadOk head) (hbody : context.response.body = [])
    (cut : Cut (head ++ (crlfcrlf ++ tail))) : memoryResult (exchange.receiving cut) context =
      (downloadHead exchange head context).map fun obj => { obj with body := tail } := by
  unfold memoryResult
  rw [run_bind]
  rcases h : downloadHead exchange head context with e | obj
  · obtain ⟨c, hsend⟩ := httpRequestSend_of_error hhead cut h
    rw [hsend]
    rfl
  · obtain ⟨rest, c, hsend, hreceived⟩ := httpRequestSend_of_ok hhead hbody cut h
    obtain ⟨isHttps, hscheme⟩ := hreceived.scheme
    have hread : receiveBody isHttps c.response.body c.connection.incoming = (.ok tail, []) := by
      rw [hreceived.incoming, receiveBody_chunks hreceived.chunks, hreceived.tail]
    rw [hsend]
    have hrun : httpResponseRead c = .ok ()
        { c with
          connection := { c.connection with incoming := [] }
          response := { c.response with body := tail } } := by
      simp only [httpResponseRead, run_get_bind, hscheme, run_ofOutcome_bind, hread,
        run_modify_bind]
      rfl
    simp only [hrun]
    rw [hreceived.response]
    rfl

/-- **Reading the rest of a response into a file** is one write. -/
theorem httpResponseReadFile_eq {w : World} {stream : Stream} {old : Bytes} {rest : List Bytes}
    (h : HeadReceived obj tail rest w.context) (hold : w.files stream.path = some old) :
    httpResponseReadFile stream w =
      (writeAll stream tail >>= fun _ => contextPart.run (modify fun context =>
        { context with connection := { context.connection with incoming := [] } })) w := by
  obtain ⟨isHttps, hscheme⟩ := h.scheme
  rw [← h.tail, run_bind, ← writeAll_append hold, httpResponseReadFile, run_get_bind, run_bind,
    run_bind, writeBody_eq hold]
  rcases hwrite : writeAll stream w.context.response.body w with ⟨stream', w₁⟩ | ⟨e, w₁⟩
  · obtain ⟨hpath, rfl⟩ := writeAll_eq_ok hwrite
    have hput : (w.put stream.path (some ((w.files stream.path).getD [] ++
        w.context.response.body))).files stream'.path =
          some ((w.files stream.path).getD [] ++ w.context.response.body) := by
      rw [hpath, World.files_put_self]
    simp only [hscheme, run_ofOutcome_bind, h.incoming]
    rw [run_bind, receiveFile_chunks h.chunks hput, run_bind]
    cases writeAll stream' rest.flatten _ <;> rfl
  · rfl

/-- **A download into a file** writes the rest of the stream, as far as there is room for it. -/
theorem fileResult_cut {w : World} {stream : Stream} {old : Bytes} (hhead : HeadOk head)
    (hbody : w.context.response.body = []) (hold : w.files stream.path = some old)
    (cut : Cut (head ++ (crlfcrlf ++ tail))) : fileResult (exchange.receiving cut) stream w =
      match downloadHead exchange head w.context with
      | .error e => (.error e, some old)
      | .ok obj =>
        if stream.accepts tail = tail.length then
          (.ok (obj.version, obj.status, obj.headers), some (old ++ tail))
        else (.error (.code .fileCannotWrite), some (old ++ tail.take (stream.accepts tail))) := by
  unfold fileResult
  rw [run_bind]
  rcases h : downloadHead exchange head w.context with e | obj
  · obtain ⟨c, hsend⟩ := httpRequestSend_of_error hhead cut h
    have hrun : contextPart.run (httpRequestSend (exchange.receiving cut)) w =
        .error e (contextPart.set w c) := Part.run_eq_error.2 ⟨c, hsend, rfl⟩
    rw [hrun]
    exact Prod.ext rfl hold
  · obtain ⟨rest, c, hsend, hreceived⟩ := httpRequestSend_of_ok hhead hbody cut h
    obtain ⟨isHttps, hscheme⟩ := hreceived.scheme
    have hrun : contextPart.run (httpRequestSend (exchange.receiving cut)) w =
        .ok () (contextPart.set w c) := Part.run_eq_ok.2 ⟨c, hsend, rfl⟩
    have hold' : (contextPart.set w c).files stream.path = some old := hold
    obtain ⟨stream', hwrite⟩ := exists_writeAll_eq hold' tail
    have hstatus : (c.response.version, c.response.status, c.response.headers) =
        (obj.version, obj.status, obj.headers) := by rw [hreceived.response]
    rw [hrun]
    simp only
    rw [httpResponseReadFile_eq hreceived hold', run_bind, hwrite]
    by_cases hroom : stream.accepts tail = tail.length
    · simp only [if_pos hroom]
      exact Prod.ext (by rw [← hstatus]; rfl) (World.files_put_self _ _ _)
    · simp only [if_neg hroom]
      exact Prod.ext rfl (World.files_put_self _ _ _)

end Receiving

/-! ## The first empty line of a stream -/

/-- A head without an empty line is followed by one, which begins inside a head that ends with
CR LF. -/
theorem exists_headOk {head : Bytes} (hnul : 0 ∉ head) (hline : ¬ crlfcrlf <:+: head)
    (hsize : head.length + crlfcrlf.length ≤ maxHeadersSize - maxChunkSize) (body : Bytes) :
    ∃ first, HeadOk first ∧
      head ++ crlfcrlf ++ body = first ++ (crlfcrlf ++ bodyAfter head body) := by
  by_cases hend : crlf <:+ head
  · obtain ⟨first, rfl⟩ := hend
    have hline' : ¬ crlfcrlf <:+: first := fun h =>
      hline (h.trans (List.prefix_append first crlf).isInfix)
    have hend' : ¬ crlf <:+ first := by
      rintro ⟨g, rfl⟩
      exact hline ⟨g, [], by simp [crlfcrlf, crlf]⟩
    refine ⟨first, ⟨?_, strstr_emptyLine_self cr_ne_lf hline' hend', ?_⟩, ?_⟩
    · exact fun h => hnul (List.mem_append_left crlf h)
    · rw [List.length_append] at hsize
      omega
    · rw [bodyAfter, if_pos (List.suffix_append first crlf)]
      simp [crlfcrlf, crlf]
  · refine ⟨head, ⟨hnul, strstr_emptyLine_self cr_ne_lf hline hend, hsize⟩, ?_⟩
    rw [bodyAfter, if_neg hend, List.append_assoc]

/-- **A download does not depend on how the network cuts the stream**, and what is stored is the
stream after its first empty line. -/
theorem download_independent {head body : Bytes} (hnul : 0 ∉ head)
    (hline : ¬ crlfcrlf <:+: head)
    (hsize : head.length + crlfcrlf.length ≤ maxHeadersSize - maxChunkSize)
    (cut₁ cut₂ : Cut (head ++ crlfcrlf ++ body)) (exchange : Exchange) {w : World}
    (hbody : w.context.response.body = []) {stream : Stream} {old : Bytes}
    (hold : w.files stream.path = some old) :
    memoryResult (exchange.receiving cut₁) w.context =
        memoryResult (exchange.receiving cut₂) w.context ∧
      (∀ response, memoryResult (exchange.receiving cut₁) w.context = .ok response →
        response.body = bodyAfter head body) ∧
      fileResult (exchange.receiving cut₁) stream w =
        fileResult (exchange.receiving cut₂) stream w ∧
      ∀ response content, fileResult (exchange.receiving cut₁) stream w = (.ok response, content) →
        content = some (old ++ bodyAfter head body) := by
  obtain ⟨first, hfirst, hstream⟩ := exists_headOk hnul hline hsize body
  revert cut₁ cut₂
  rw [hstream]
  intro cut₁ cut₂
  refine ⟨?_, ?_, ?_, ?_⟩
  · rw [memoryResult_cut hfirst hbody, memoryResult_cut hfirst hbody]
  · intro response hresponse
    rw [memoryResult_cut hfirst hbody] at hresponse
    rcases hresult : downloadHead exchange first w.context with e | obj
    · rw [hresult] at hresponse
      cases hresponse
    · rw [hresult] at hresponse
      rw [← Except.ok.inj hresponse]
  · rw [fileResult_cut hfirst hbody hold, fileResult_cut hfirst hbody hold]
  · intro response content hresponse
    rw [fileResult_cut hfirst hbody hold] at hresponse
    rcases hresult : downloadHead exchange first w.context with e | obj
    · rw [hresult] at hresponse
      cases (Prod.mk.inj hresponse).1
    · rw [hresult] at hresponse
      simp only at hresponse
      split_ifs at hresponse with hroom
      · exact (Prod.mk.inj hresponse).2.symm
      · cases (Prod.mk.inj hresponse).1

/-- A response in one piece, and cut inside its empty line. -/
theorem download_independent_example :
    let stream := str "HTTP/1.1 200 OK\r\nA: b" ++ crlfcrlf ++ str "xy"
    let w : World := { files := fun _ => some []
                       context := { request := { uri := { scheme := some httpScheme } } } }
    let whole : Cut stream := ⟨[stream], by decide, by decide⟩
    let pieces : Cut stream := ⟨[stream.take 23, stream.drop 23], by decide, by decide⟩
    memoryResult (Exchange.receiving {} whole) w.context =
        memoryResult (Exchange.receiving {} pieces) w.context ∧
      fileResult (Exchange.receiving {} whole) ⟨[], none⟩ w =
        fileResult (Exchange.receiving {} pieces) ⟨[], none⟩ w := by
  intro stream w whole pieces
  have h := @download_independent (str "HTTP/1.1 200 OK\r\nA: b") (str "xy") (by decide)
    (by decide) (by decide) whole pieces {} w rfl ⟨[], none⟩ [] rfl
  exact ⟨h.1, h.2.2.1⟩

/-- When the head ends with CR LF, the body that is stored begins with one. -/
theorem not_download_body :
    ∃ (head body : Bytes) (cut : Cut (head ++ crlfcrlf ++ body)) (context : HTTPContext)
      (response : HTTPResponse), 0 ∉ head ∧ ¬ crlfcrlf <:+: head ∧
      head.length + crlfcrlf.length ≤ maxHeadersSize - maxChunkSize ∧
      memoryResult (Exchange.receiving {} cut) context = .ok response ∧
      response.body ≠ body := by
  let head := str "HTTP/1.1 200 OK\r\nA: b\r\n"
  let cut : Cut (head ++ crlfcrlf ++ []) := ⟨[head ++ crlfcrlf], by decide, by decide⟩
  let context : HTTPContext := { request := { uri := { scheme := some httpScheme } } }
  have hbody : (memoryResult (Exchange.receiving {} cut) context).toOption.map
      HTTPResponse.body = some crlf := by decide +kernel
  rcases hresult : memoryResult (Exchange.receiving {} cut) context with e | response
  · rw [hresult] at hbody
    cases hbody
  · rw [hresult] at hbody
    refine ⟨head, [], cut, context, response, by decide, by decide, by decide, hresult, ?_⟩
    rw [Option.some.inj hbody]
    decide

end Unalix
