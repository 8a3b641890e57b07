import Unalix.Foundations.Handles
import Unalix.Foundations.Simulation
import Unalix.Uri.Returns
import Unalix.Http.Redirect

/-!
# The descriptors of connections (`connection.c`, `http.c`)

`http_context_free` closes the descriptor of a context, whatever it is. In a context that is still
zeroed this is descriptor `0`; after a failed call of `socket` it is `-1`, which is none; and after
a first `http_context_free` it is the one that was closed there. Behind a call that crashes nothing
is closed. A call of `http_request_send` crashes exactly when a head arrives from which the parser
does not return (`crashed_httpRequestSend_iff`).
-/

namespace Unalix

open Outcome Calls Handles

/-! ## Calls and descriptors -/

/-- What a call does to the descriptors of the process: no descriptor is negative. -/
def FdCall.event : FdCall → Option (Event ℕ)
  | .socket fd => some (.acquire fd)
  | .close fd => if 0 ≤ fd then some (.release fd.toNat) else none

/-- Every descriptor that `socket` has returned is closed once, and no other one. -/
def Disciplined (calls : List FdCall) : Prop := Balanced (calls.filterMap FdCall.event)

instance (calls : List FdCall) : Decidable (Disciplined calls) :=
  inferInstanceAs (Decidable (Balanced _))

/-- The call of `socket` in an exchange. -/
def socketCalls (exchange : Exchange) : List FdCall := (exchange.socket.map FdCall.socket).toList

theorem disciplined_nil : Disciplined [] := balanced_nil

/-- A call of `socket`, and `close` on what it has returned. -/
theorem disciplined_exchange (exchange : Exchange) :
    Disciplined (socketCalls exchange ++ [.close (socketResult exchange.socket)]) := by
  unfold socketCalls
  cases exchange.socket with
  | none => exact balanced_nil
  | some fd =>
    have hpair := balanced_pair fd
    simpa [Disciplined, socketResult, FdCall.event] using hpair

theorem Disciplined.append_iff {calls : List FdCall} (h : Disciplined calls)
    (calls' : List FdCall) : Disciplined (calls ++ calls') ↔ Disciplined calls' := by
  rw [Disciplined, List.filterMap_append]
  exact Balanced.append_iff h _

theorem not_disciplined_close (fd : ℕ) (calls : List FdCall) :
    ¬ Disciplined (.close fd :: calls) := by
  have hnot := not_balanced_release fd (calls.filterMap FdCall.event)
  simpa [Disciplined, FdCall.event] using hnot

/-- A descriptor that is left open. -/
theorem not_disciplined_socketCalls {exchange : Exchange}
    (h : ∃ fd, exchange.socket = some fd) : ¬ Disciplined (socketCalls exchange) := by
  obtain ⟨fd, hfd⟩ := h
  have hnot := not_balanced_acquire fd
  simpa [Disciplined, socketCalls, hfd, FdCall.event] using hnot

/-! ## One context -/

/-- The descriptor of a context, and the calls so far. -/
def descriptors (context : HTTPContext) : ℤ × List FdCall :=
  (context.connection.fd, context.connection.calls)

/-- The calls when a context is freed. -/
def callsAfterFree (context : HTTPContext) : List FdCall :=
  (httpContextFree context).connection.calls

theorem callsAfterFree_eq {context : HTTPContext} {fd : ℤ} {calls : List FdCall}
    (h : descriptors context = (fd, calls)) : callsAfterFree context = calls ++ [.close fd] := by
  obtain ⟨hfd, hcalls⟩ := Prod.mk.inj h
  rw [← hfd, ← hcalls]
  rfl

/-- The calls behind a call: its context is freed, unless it has crashed. -/
def callsAtEnd {α : Type} (result : EStateM.Result Failure HTTPContext α) : List FdCall :=
  (freeAfter (outcome result) (final result)).connection.calls

section End

variable {α : Type} {result : EStateM.Result Failure HTTPContext α}

theorem callsAtEnd_of_crashed (h : Crashed result) :
    callsAtEnd result = (final result).connection.calls := by
  obtain ⟨f, context, rfl⟩ := h
  rfl

theorem callsAtEnd_of_not_crashed (h : ¬ Crashed result) :
    callsAtEnd result = callsAfterFree (final result) := by
  rcases result with _ | ⟨_ | f, context⟩
  · rfl
  · rfl
  · exact absurd (crashed_fault f context) h

/-- **Behind an exchange** that has come to its call of `socket`, the descriptor is closed unless the
exchange has crashed. -/
theorem disciplined_callsAtEnd_iff {exchange : Exchange} {before : List FdCall}
    (hbefore : Disciplined before)
    (hdesc : descriptors (final result) =
      (socketResult exchange.socket, before ++ socketCalls exchange))
    (hsocket : Crashed result → ∃ fd, exchange.socket = some fd) :
    Disciplined (callsAtEnd result) ↔ ¬ Crashed result := by
  by_cases hcrash : Crashed result
  · rw [callsAtEnd_of_crashed hcrash]
    have hcalls : (final result).connection.calls = before ++ socketCalls exchange :=
      congrArg Prod.snd hdesc
    rw [hcalls, hbefore.append_iff]
    exact iff_of_false (not_disciplined_socketCalls (hsocket hcrash)) fun h => h hcrash
  · rw [callsAtEnd_of_not_crashed hcrash, callsAfterFree_eq hdesc, List.append_assoc,
      hbefore.append_iff]
    exact iff_of_true (disciplined_exchange exchange) hcrash

end End

/-! ## `http_request_send` -/

theorem returns_checkPort {uri : URI} {scheme : Bytes} (h : uri.scheme = some scheme) :
    Returns (checkPort uri) := by
  unfold checkPort
  rw [h]
  split_ifs with hport
  · simp only [deref, ok_bind]
    split_ifs <;> simp
  · exact returns_ok ()

theorem returns_receiveHead (isHttps : Bool) (stale headers : Bytes) (incoming : List Received) :
    Returns (receiveHead isHttps stale headers incoming).1 := by
  have hstop (headers : Bytes) : Returns (receiveHead.endOfStream isHttps headers) := by
    unfold receiveHead.endOfStream
    split_ifs <;> simp
  induction incoming generalizing headers with
  | nil => exact hstop headers
  | cons received incoming ih =>
    cases received with
    | failed error =>
      rw [receiveHead]
      split_ifs <;> simp
    | chunk bytes =>
      rw [receiveHead]
      split_ifs
      · exact hstop headers
      · exact returns_fail _
      · exact returns_ok _
      · exact ih _

/-- A head arrives in an exchange: no call fails before. -/
structure Receives (exchange : Exchange) (isHttps : Bool) (headers : Bytes) : Prop where
  socket : exchange.socket.isSome = true
  timeoutSet : exchange.timeoutSet = true
  connected : exchange.connected = true
  sent : exchange.sent = true
  received : (receiveHead isHttps exchange.stale [] exchange.incoming).1 = .ok headers

/-- The exchange comes to its call of `socket`: the port of the URI is known, and the name of the
host is resolved. -/
def Addressed (exchange : Exchange) (uri : URI) : Prop :=
  exchange.resolved = true ∧ checkPort uri = .ok ()

/-- **`http_request_send` crashes exactly when** a head arrives that is not safe to parse. -/
theorem crashed_httpRequestSend_iff {context : HTTPContext} {scheme : Bytes}
    (hscheme : context.request.uri.scheme = some scheme)
    (htimeout : 0 < context.connection.timeout) (exchange : Exchange) :
    Crashed (httpRequestSend exchange context) ↔ Addressed exchange context.request.uri ∧
      ∃ headers, Receives exchange (decide (scheme = httpsScheme)) headers ∧
        ¬ SafeHead headers := by
  have hwait : (decide (context.connection.timeout ≤ 0) || exchange.timeoutSet) =
      exchange.timeoutSet := by
    rw [decide_eq_false (by omega), Bool.false_or]
  have hlast (response : HTTPResponse) : NeverCrashes
      (modify fun context => { context with response := response } :
        EStateM Failure HTTPContext Unit) := fun s => not_crashed_ok () _
  have hparse (headers : Bytes) (context' : HTTPContext) :
      Crashed ((ofOutcome (parseHttpResponse context.response headers) >>= fun response =>
        modify fun context => { context with response := response } :
          EStateM Failure HTTPContext Unit) context') ↔ ¬ SafeHead headers := by
    rw [crashed_ofOutcome_bind_iff, returns_parseHttpResponse_iff_safeHead]
    exact or_iff_left fun ⟨response, _, h⟩ => hlast response _ h
  simp only [httpRequestSend, run_get_bind, run_modify_bind, crashed_ofOutcome_bind_iff,
    crashed_require_bind_iff, hscheme, deref, hwait, hparse, returns_checkPort hscheme,
    returns_receiveHead, returns_ok, not_true_eq_false, false_or]
  constructor
  · rintro ⟨⟨⟩, hport, hresolved, hsocket, htimeoutSet, hconnected, _, heq, hsent, headers, hreceived,
      hnotSafe⟩
    obtain rfl := Except.ok.inj heq
    exact ⟨⟨hresolved, hport⟩, headers, ⟨hsocket, htimeoutSet, hconnected, hsent, hreceived⟩, hnotSafe⟩
  · rintro ⟨⟨hresolved, hport⟩, headers, h, hnotSafe⟩
    exact ⟨(), hport, hresolved, h.socket, h.timeoutSet, h.connected, scheme, rfl, h.sent, headers,
      h.received, hnotSafe⟩

/-- **`http_request_send`** gets a descriptor from `socket`, or does not come so far. -/
theorem descriptors_httpRequestSend {context : HTTPContext} {scheme : Bytes}
    (hscheme : context.request.uri.scheme = some scheme) (exchange : Exchange) :
    (Addressed exchange context.request.uri ∧
      descriptors (final (httpRequestSend exchange context)) =
        (socketResult exchange.socket, context.connection.calls ++ socketCalls exchange)) ∨
    (¬ Addressed exchange context.request.uri ∧
      ∃ e, httpRequestSend exchange context = .error (.code e) context) := by
  rw [httpRequestSend, run_get_bind]
  rcases hport : checkPort context.request.uri with (e | f) | _
  · refine .inr ⟨?_, e, rfl⟩
    rintro ⟨-, hok⟩
    cases hport.symm.trans hok
  · exact absurd hport (returns_checkPort hscheme f)
  · cases hresolved : exchange.resolved with
    | false =>
      refine .inr ⟨?_, _, rfl⟩
      rintro ⟨htrue, -⟩
      cases hresolved.symm.trans htrue
    | true =>
      refine .inl ⟨⟨hresolved, hport⟩, ?_⟩
      rw [run_ofOutcome_bind, run_require_bind, run_modify_bind]
      -- what follows the call of `socket` keeps the descriptor
      refine (show Keeps descriptors _ from ?_) _
      apply Keeps.bind (keeps_require _ _ _)
      intro _
      apply Keeps.bind (keeps_require _ _ _)
      intro _
      apply Keeps.bind (keeps_require _ _ _)
      intro _
      apply Keeps.bind (fun _ => rfl)
      intro _
      apply Keeps.bind (keeps_ofOutcome _ _)
      intro scheme
      apply Keeps.bind (fun _ => rfl)
      intro _
      apply Keeps.bind (keeps_require _ _ _)
      intro _
      apply Keeps.bind (fun _ => rfl)
      intro _
      apply Keeps.bind (keeps_ofOutcome _ _)
      intro headers
      apply Keeps.bind (keeps_ofOutcome _ _)
      intro response
      exact fun _ => rfl

/-- A call of `http_request_send` that succeeds has a descriptor, and the request has its
`Content-Length`. -/
theorem sent_of_httpRequestSend {exchange : Exchange} {context context' : HTTPContext}
    (h : httpRequestSend exchange context = .ok () context') :
    (∃ fd, exchange.socket = some fd) ∧
      context'.request = (httpRequestStringify context.request).1 ∧
      context'.connection.timeout = context.connection.timeout := by
  simp only [httpRequestSend, run_get_bind, run_modify_bind, run_bind_eq_ok, run_modify_eq_ok,
    ofOutcome_eq_ok, require_eq_ok] at h
  obtain ⟨_, _, ⟨-, rfl⟩, _, _, ⟨-, rfl⟩, _, _, ⟨hsocket, rfl⟩, _, _, ⟨-, rfl⟩, _, _, ⟨-, rfl⟩, scheme,
    _, ⟨-, rfl⟩, _, _, ⟨-, rfl⟩, buffer, _, ⟨-, rfl⟩, response, _, ⟨-, rfl⟩, rfl⟩ := h
  exact ⟨Option.isSome_iff_exists.1 hsocket, rfl, rfl⟩

/-! ## The exchange for a URL -/

/-- The exchange for a URL comes to its call of `socket`: the URL is accepted, its port is known, and
the name of the host is resolved. -/
def ComesToSocket (exchange : Exchange) (url : Bytes) : Prop :=
  ∃ uri, uriParse {} url = .ok uri ∧ Addressed exchange uri

/-- The head that arrives in the exchange for a URL, if one does, is safe to parse. -/
def AnswersSafely (exchange : Exchange) (url : Bytes) : Prop :=
  ∀ uri headers, uriParse {} url = .ok uri →
    Receives exchange (decide (uri.scheme = some httpsScheme)) headers → SafeHead headers

theorem exists_scheme_of_uriParse {url : Bytes} {uri : URI} (h : uriParse {} url = .ok uri) :
    ∃ scheme, uri.scheme = some scheme := by
  obtain ⟨R, -, rfl⟩ := uriParse_eq_ok_iff.1 h
  exact ⟨_, rfl⟩

theorem not_comesToSocket {exchange : Exchange} {url : Bytes} {e : Failure}
    (h : uriParse {} url = .error e) : ¬ ComesToSocket exchange url := by
  intro ⟨uri, hparse, _⟩
  cases h.symm.trans hparse

/-- An answer that is not safe comes over a descriptor. -/
theorem exists_socket_of_not_answersSafely {exchange : Exchange} {url : Bytes}
    (h : ¬ AnswersSafely exchange url) : ∃ fd, exchange.socket = some fd := by
  unfold AnswersSafely at h
  push Not at h
  obtain ⟨uri, headers, -, hreceives, -⟩ := h
  exact Option.isSome_iff_exists.1 hreceives.socket

/-- The URL of an exchange is set in a context that has none. -/
theorem contextSetUrl_cases {context : HTTPContext} (hcontext : context.request.uri = {})
    (url : Bytes) :
    (∃ uri request, uriParse {} url = .ok uri ∧
      httpRequestSetUrl context.request url = .ok request ∧ request.uri = uri ∧
      contextSetUrl url context = .ok () { context with request := request }) ∨
    ∃ e, uriParse {} url = .error (.code e) ∧
      contextSetUrl url context = .error (.code e) context := by
  rw [contextSetUrl, run_get_bind]
  simp only [httpRequestSetUrl, hcontext]
  rcases hparse : uriParse {} url with (e | f) | uri
  · exact .inr ⟨e, rfl, rfl⟩
  · exact absurd hparse (returns_uriParse url f)
  · exact .inl ⟨uri, _, rfl, rfl, rfl, rfl⟩

section Send

variable {url : Bytes} {uri : URI} {context : HTTPContext}

/-- **A request for a URL is sent**: the exchange comes to its call of `socket`, and crashes exactly
when it is not answered safely, or it fails before. -/
theorem descriptors_send (hparse : uriParse {} url = .ok uri) (hcontext : context.request.uri = uri)
    (htimeout : 0 < context.connection.timeout) (exchange : Exchange) :
    (ComesToSocket exchange url ∧ descriptors (final (httpRequestSend exchange context)) =
        (socketResult exchange.socket, context.connection.calls ++ socketCalls exchange) ∧
      (Crashed (httpRequestSend exchange context) ↔ ¬ AnswersSafely exchange url)) ∨
    (¬ ComesToSocket exchange url ∧
      ∃ e, httpRequestSend exchange context = .error (.code e) context) := by
  obtain ⟨scheme, hscheme⟩ := exists_scheme_of_uriParse hparse
  have hscheme' : context.request.uri.scheme = some scheme := by rw [hcontext, hscheme]
  have hcomes : ComesToSocket exchange url ↔ Addressed exchange context.request.uri := by
    rw [hcontext]
    refine ⟨?_, fun h => ⟨uri, hparse, h⟩⟩
    intro ⟨uri', hparse', h⟩
    rwa [Except.ok.inj (hparse.symm.trans hparse')]
  have hsafe : AnswersSafely exchange url ↔ ∀ headers,
      Receives exchange (decide (scheme = httpsScheme)) headers → SafeHead headers := by
    unfold AnswersSafely
    constructor
    · intro h headers hreceives
      refine h uri headers hparse ?_
      simpa only [hscheme, Option.some.injEq] using hreceives
    · intro h uri' headers hparse' hreceives
      obtain rfl := Except.ok.inj (hparse.symm.trans hparse')
      refine h headers ?_
      simpa only [hscheme, Option.some.injEq] using hreceives
  rw [hcomes, hsafe]
  rcases descriptors_httpRequestSend hscheme' exchange with ⟨haddressed, hfinal⟩ | hfails
  · refine .inl ⟨haddressed, hfinal, ?_⟩
    rw [crashed_httpRequestSend_iff hscheme' htimeout, and_iff_right haddressed]
    push Not
    rfl
  · exact .inr hfails

end Send

/-- **One exchange of an update.** -/
theorem descriptors_fetch {context : HTTPContext} (hcontext : context.request.uri = {})
    (htimeout : 0 < context.connection.timeout) (exchange : Exchange) (url accept : Bytes) :
    (ComesToSocket exchange url ∧ descriptors (final (fetch exchange url accept context)) =
        (socketResult exchange.socket, context.connection.calls ++ socketCalls exchange) ∧
      (Crashed (fetch exchange url accept context) ↔ ¬ AnswersSafely exchange url)) ∨
    (¬ ComesToSocket exchange url ∧ ∃ e context', fetch exchange url accept context =
      .error (.code e) context' ∧ descriptors context' = descriptors context) := by
  rw [fetch, run_bind]
  rcases contextSetUrl_cases hcontext url with ⟨uri, request, hparse, -, huri, hset⟩ |
    ⟨e, hparse, hset⟩
  · rw [hset]
    simp only [contextAddHeader]
    rw [run_modify_bind, run_modify_bind]
    set c : HTTPContext := { context with
      request := httpRequestAddHeader (httpRequestAddHeader request httpHeaderUserAgent
        httpDefaultUserAgent) httpHeaderAccept accept }
    have hstatus (_ : Unit) : Keeps descriptors (do
        let context ← get
        require (context.response.status.code = statusOk) .httpBadStatusCode) :=
      Keeps.bind Keeps.get fun context => keeps_require _ _ _
    have hcode (_ : Unit) : NeverCrashes (do
        let context ← (get : EStateM Failure HTTPContext HTTPContext)
        require (context.response.status.code = statusOk) .httpBadStatusCode) :=
      NeverCrashes.bind (.of_neverFails NeverFails.get) fun context => .require _ _
    rcases @descriptors_send url uri c hparse huri htimeout exchange with
      ⟨hcomes, hfinal, hcrash⟩ | ⟨hnot, e, herror⟩
    · left
      refine ⟨hcomes, (observe_bind _ hstatus c).trans hfinal, ?_⟩
      rw [NeverCrashes.bind_iff _ hcode]
      exact hcrash
    · right
      refine ⟨hnot, e, c, ?_, rfl⟩
      rw [run_bind, herror]
  · rw [hset]
    exact .inr ⟨not_comesToSocket hparse, e, context, rfl, rfl⟩

/-- An exchange of an update that succeeds has a descriptor, and its request has a scheme. -/
theorem sent_of_fetch {exchange : Exchange} {url accept : Bytes} {context context' : HTTPContext}
    (hcontext : context.request.uri = {})
    (h : fetch exchange url accept context = .ok () context') :
    (∃ fd, exchange.socket = some fd) ∧
      (∃ scheme, context'.request.uri.scheme = some scheme) ∧
      context'.connection.timeout = context.connection.timeout := by
  simp only [fetch, run_bind_eq_ok, run_get_eq_ok, require_eq_ok] at h
  obtain ⟨_, c₁, hset, _, c₂, huserAgent, _, c₃, haccept, _, c₄, hsend, _, _, ⟨rfl, rfl⟩, -, rfl⟩ := h
  obtain ⟨hsocket, hrequest, htimeout⟩ := sent_of_httpRequestSend hsend
  rcases contextSetUrl_cases hcontext url with ⟨uri, request, hparse, -, huri, hset'⟩ |
    ⟨e, -, hset'⟩
  · obtain ⟨-, rfl⟩ := EStateM.Result.ok.inj (hset'.symm.trans hset)
    obtain ⟨-, rfl⟩ := EStateM.Result.ok.inj huserAgent
    obtain ⟨-, rfl⟩ := EStateM.Result.ok.inj haccept
    refine ⟨hsocket, ?_, htimeout⟩
    rw [hrequest, uri_httpRequestStringify]
    obtain ⟨scheme, hscheme⟩ := exists_scheme_of_uriParse hparse
    exact ⟨scheme, (congrArg URI.scheme huri).trans hscheme⟩
  · cases hset'.symm.trans hset

end Unalix
