import Unalix.OnHeap.Clean
import Unalix.OnHeap.Exchange
import Unalix.Unshort

/-!
# Following redirects in memory (`unshort_url.c`)

A turn of `unalix_unshort_url` owns the target of the turn before, which it frees for its own, the
location that it was sent to, which it frees when it is cleaned, and a context. What a turn leaves
is its target and the location of the next turn. So the location is lost when there is no next
turn, since there were too many redirects, and then alone. The bytes that are accessed outside of
blocks are those behind the buffers of the printed requests, one for each of them
(`unalixUnshortUrl_memory`).
-/

namespace Unalix.OnHeap

open Calls Heaps CString Ascii Outcome Chains

/-! ## The code -/

/-- The variables of `unalix_unshort_url` and the context of a turn, with the requests handed to
`http_request_send` and the calls for the descriptors so far. -/
structure Unshort where
  totalRedirects : ℕ := 0
  location : Option ℕ := none
  targetUrl : Option ℕ := none
  context : HTTPContext := {}
  requests : List Unalix.HTTPRequest := []
  calls : List FdCall := []

abbrev UnshortCall (α : Type) := EStateM Failure (Filling Unshort) α

def contextPart : Part (Filling Unshort) (Filling HTTPContext) where
  get m := { heap := m.heap, obj := m.obj.context }
  set m context := { heap := context.heap, obj := { m.obj with context := context.obj } }

/-- The context of a turn of the loop. -/
def unshortContext (timeout : ℤ) : HTTPContext where
  request := { version := .http10, method := .get }
  connection := { timeout := if 0 < timeout then timeout else httpDefaultTimeout }

/-- The headers and the URL of the request. -/
def prepareRequest (userAgent : Option Bytes) (url : Bytes) : ContextCall Unit := do
  contextAddHeader httpHeaderAccept (str "*/*")
  contextAddHeader httpHeaderUserAgent (chooseUserAgent userAgent)
  contextSetUrl url

/-- `http_context_free` on the context of a turn. -/
def freeContext : UnshortCall Unit := do
  let m ← get
  let context ← heapPart.run (httpContextFree m.obj.context)
  assign fun s => { s with context := context, calls := s.calls ++ context.connection.calls }

/-- The location is freed, if there is one. -/
def freeLocation : UnshortCall Unit := do
  let m ← get
  heapPart.run (freePointer m.obj.location)
  assign fun s => { s with location := none }

/-- The old target is freed, if there is one. -/
def setTarget (target : ℕ) : UnshortCall Unit := do
  let m ← get
  heapPart.run (freePointer m.obj.targetUrl)
  assign fun s => { s with targetUrl := some target }

section Unshort

variable (clean : Bytes → HeapCall ℕ) (server : Server) (userAgent : Option Bytes) (timeout : ℤ)

/-- The location is cleaned, or the source URL when there is none. -/
def cleanNext (sourceUrl : Bytes) : UnshortCall ℕ := do
  let m ← get
  let location ← heapPart.run (readText m.obj.location)
  heapPart.run (clean (location.getD sourceUrl))

/-- The exchange of a turn: the location that the response redirects to. -/
def exchangeUrl (target : ℕ) : UnshortCall (Option ℕ) := do
  let url ← heapPart.run (readString target)
  contextPart.run (prepareRequest userAgent url)
  let m ← get
  let request ← heapPart.run (readRequest m.obj.context.request)
  assign fun s => { s with requests := s.requests ++ [request] }
  contextPart.run (httpRequestSend (server (m.obj.requests ++ [request])))
  let m ← get
  heapPart.run (httpGetRedirect m.obj.context)

/-- A turn of the loop, up to the test of the location. -/
def unshortRound (sourceUrl : Bytes) : UnshortCall (Option ℕ) := do
  let target ← thenAlways (cleanNext clean sourceUrl) freeLocation
  setTarget target
  assign fun s => { s with context := unshortContext timeout }
  thenAlways (exchangeUrl server userAgent target) freeContext

/-- A turn of the loop: the loop goes on, or the function returns. -/
def unshortStep (sourceUrl : Bytes) (m : Filling Unshort) :
    Filling Unshort ⊕ (Outcome Unit × Filling Unshort) :=
  match unshortRound clean server userAgent timeout sourceUrl m with
  | .error e m => .inr (.error e, m)
  | .ok none m => .inr (.ok (), m)
  | .ok (some location) m =>
    let s := { m.obj with location := some location
                          totalRedirects := m.obj.totalRedirects + 1 }
    if httpDefaultMaxRedirects < s.totalRedirects then
      .inr (fail .httpTooManyRedirects, { m with obj := s })
    else .inl { m with obj := s }

/-- `unalix_unshort_url`, in a run of at most `turns` turns of the loop. -/
def unalixUnshortUrl (turns : ℕ) (sourceUrl : Option Bytes) (targetUrl : Option ℕ)
    (h : Heap Block) : Option (Outcome Unit × Filling Unshort) :=
  let m : Filling Unshort := { heap := h, obj := { targetUrl := targetUrl } }
  match sourceUrl with
  | none => some (fail .argInvalid, m)
  | some [] => some (fail .argInvalid, m)
  | some sourceUrl => follow (unshortStep clean server userAgent timeout sourceUrl) turns m

end Unshort

/-! ## What is held between two turns -/

/-- The variables with a target and a location that are placed. -/
def placedRun (s : Unalix.Unshort) (target location : PlacedText) (context : HTTPContext) :
    Unshort where
  totalRedirects := s.totalRedirects
  location := location.record
  targetUrl := target.record
  context := context
  requests := s.requests
  calls := s.calls

/-- Between two turns the target and the location are all that is owned, and `k` bytes outside of
blocks were accessed. -/
def HoldsRun (k : ℕ) (rest : Multiset (ℕ × Block)) (s : Unalix.Unshort) (m : Filling Unshort) : Prop :=
  ∃ (target location : PlacedText) (context : HTTPContext), target.value = s.targetUrl ∧
    location.value = s.location ∧ m.obj = placedRun s target location context ∧
    Holds k m.heap (target.cells + (location.cells + rest))

/-- In the exchange of a turn there is no location, but the context `c`. -/
def Exchanging (k : ℕ) (rest : Multiset (ℕ × Block)) (s : Unalix.Unshort) (c : Unalix.HTTPContext)
    (m : Filling Unshort) : Prop :=
  ∃ (target : PlacedText) (p : PlacedContext), s.location = none ∧ target.value = s.targetUrl ∧
    p.value = c ∧ m.obj = placedRun s target none p.record ∧
    Holds k m.heap (p.cells + (target.cells + rest))

section Spec

variable {k : ℕ} {rest : Multiset (ℕ × Block)} {s : Unalix.Unshort} {c : Unalix.HTTPContext}
  {m : Filling Unshort}

/-- The location is freed. -/
theorem HoldsRun.freeLocation (hm : HoldsRun k rest s m) :
    ∃ m', OnHeap.freeLocation m = .ok () m' ∧ HoldsRun k rest { s with location := none } m' := by
  obtain ⟨h, obj⟩ := m
  obtain ⟨target, location, context, htarget, -, hobj, hh⟩ := hm
  cases (hobj : obj = _)
  rw [add_left_comm] at hh
  obtain ⟨h', hfree, hh⟩ := exists_freePointer hh
  refine ⟨_, (run_bind_of_ok (Part.run_eq_ok.2 ⟨h', hfree, rfl⟩) _), target, none, context, htarget,
    rfl, rfl, ?_⟩
  rwa [PlacedText.cells_none, zero_add]

/-- The call of `unalix_clean_url` for a URL ends in memory as it does on values. -/
def Cleans (clean : Bytes → HeapCall ℕ) (cleaned : Bytes → Outcome Bytes) (url : Bytes) : Prop :=
  ∀ k rest, Simulates (fun h => Holds k h rest) (clean url) (cleaned url)
    (fun text a h => Holds k h ((a, .string (.exact text)) ::ₘ rest)) (Returned k rest)

variable {clean : Bytes → HeapCall ℕ} {cleaned : Bytes → Outcome Bytes}

/-- **The location is cleaned and freed**, whatever the code is. -/
theorem cleanNext_simulates {sourceUrl : Bytes}
    (hclean : Cleans clean cleaned (s.location.getD sourceUrl)) :
    Simulates (HoldsRun k rest s) (thenAlways (cleanNext clean sourceUrl) freeLocation)
      (cleaned (s.location.getD sourceUrl))
      (fun text a m => HoldsRun k ((a, .string (.exact text)) ::ₘ rest) { s with location := none } m)
      (fun e m => ∀ code, e = .code code → HoldsRun k rest { s with location := none } m) := by
  intro m hm
  obtain ⟨h, obj⟩ := m
  obtain ⟨target, location, context, htarget, hlocation, hobj, hh⟩ := hm
  obtain rfl : obj = placedRun s target location context := hobj
  have htext := readText_of_le (t := location) hh
    ((Multiset.le_add_right _ _).trans (Multiset.le_add_left _ _))
  have hread : cleanNext clean sourceUrl ⟨h, placedRun s target location context⟩ =
      heapPart.run (clean (s.location.getD sourceUrl))
        ⟨h, placedRun s target location context⟩ := by
    rw [← hlocation]
    exact run_bind_of_ok (Part.run_eq_ok.2 ⟨h, htext, rfl⟩) _
  have hcall := hclean k _ h hh
  cases hr : cleaned (s.location.getD sourceUrl) with
  | ok text =>
    rw [hr] at hcall
    obtain ⟨a, h₁, hrun, hh₁⟩ := hcall
    have hm₁ : HoldsRun k ((a, .string (.exact text)) ::ₘ rest) s
        ⟨h₁, placedRun s target location context⟩ :=
      ⟨target, location, context, htarget, hlocation, rfl, by simpa using hh₁⟩
    obtain ⟨m', hfree, hm'⟩ := hm₁.freeLocation
    refine ⟨a, m', thenAlways_of_ok ?_ hfree, hm'⟩
    rw [hread]
    exact Part.run_eq_ok.2 ⟨h₁, hrun, rfl⟩
  | error e =>
    rw [hr] at hcall
    obtain ⟨h₁, hrun, hh₁⟩ := hcall
    have hrun' : cleanNext clean sourceUrl ⟨h, placedRun s target location context⟩ =
        .error e ⟨h₁, placedRun s target location context⟩ := by
      rw [hread]
      exact Part.run_eq_error.2 ⟨h₁, hrun, rfl⟩
    cases e with
    | fault f => exact ⟨_, thenAlways_of_fault hrun', fun _ => nofun⟩
    | code e =>
      have hm₁ : HoldsRun k rest s ⟨h₁, placedRun s target location context⟩ :=
        ⟨target, location, context, htarget, hlocation, rfl, hh₁ e rfl⟩
      obtain ⟨m', hfree, hm'⟩ := hm₁.freeLocation
      exact ⟨m', thenAlways_of_code hrun' hfree, fun _ _ => hm'⟩

/-! ## The exchange of a turn -/

/-- At an error code the context is another one with the same connection. -/
def FailedExchange (k : ℕ) (rest : Multiset (ℕ × Block)) (e : Failure)
    (x : Unalix.Unshort × Unalix.HTTPContext) (m : Filling Unshort) : Prop :=
  ∀ code, e = .code code → ∃ c', c'.connection = x.2.connection ∧ Exchanging k rest x.1 c' m

/-- The context of a turn, on values. -/
def contextOf : Part (Unalix.Unshort × Unalix.HTTPContext) Unalix.HTTPContext where
  get := Prod.snd
  set x c := (x.1, c)

/-- What is done with a context in memory is done with the context of a turn, with the variables
`s`. -/
theorem refines_onContext {k k' : ℕ} {P P' : Unalix.HTTPContext → Prop}
    {x : EStateM Failure Unalix.HTTPContext Unit} {y : ContextCall Unit}
    (hxy : ∀ rest, Refines (fun c m => P c ∧ HoldsContext k rest c m) x y
      (fun _ _ => HoldsContext k' rest) (Failed k' rest))
    (hpost : ∀ c u c', P c → x c = .ok u c' → P' c') (s : Unalix.Unshort) :
    Refines (fun x m => x.1 = s ∧ P x.2 ∧ Exchanging k rest s x.2 m) (contextOf.run x)
      (contextPart.run y) (fun _ _ x m => x.1 = s ∧ P' x.2 ∧ Exchanging k' rest s x.2 m)
      (fun e x m => x.1 = s ∧ FailedExchange k' rest e x m) := by
  rintro ⟨s, c⟩ ⟨h, obj⟩ ⟨rfl, hP, target, p, hnone, htarget, hp, hobj, hh⟩
  obtain rfl : obj = placedRun s target none p.record := hobj
  have hback (c' : Unalix.HTTPContext) (m : Filling HTTPContext)
      (hm : HoldsContext k' (target.cells + rest) c' m) :
      Exchanging k' rest s c' (contextPart.set ⟨h, placedRun s target none p.record⟩ m) := by
    obtain ⟨p', hp', hobj', hh'⟩ := hm
    exact ⟨target, p', hnone, htarget, hp', by rw [← hobj']; rfl, hh'⟩
  have hm : HoldsContext k (target.cells + rest) c ⟨h, p.record⟩ := ⟨p, hp, rfl, hh⟩
  have hcall := hxy (target.cells + rest) c ⟨h, p.record⟩ ⟨hP, hm⟩
  cases hr : x c with
  | ok u c' =>
    rw [hr] at hcall
    obtain ⟨_, m', hrun, hm'⟩ := hcall
    have hvalue : contextOf.run x (s, c) = .ok u (s, c') := Part.run_eq_ok.2 ⟨c', hr, rfl⟩
    rw [hvalue]
    exact ⟨(), _, Part.run_eq_ok.2 ⟨m', hrun, rfl⟩, rfl, hpost c u c' hP hr, hback c' m' hm'⟩
  | error e c' =>
    rw [hr] at hcall
    obtain ⟨m', hrun, hfailed⟩ := hcall
    have hvalue : contextOf.run x (s, c) = .error e (s, c') := Part.run_eq_error.2 ⟨c', hr, rfl⟩
    rw [hvalue]
    refine ⟨_, Part.run_eq_error.2 ⟨m', hrun, rfl⟩, rfl, fun code hcode => ?_⟩
    obtain ⟨c'', hconnection, hm'⟩ := hfailed code hcode
    exact ⟨c'', hconnection, hback c'' m' hm'⟩

theorem prepareRequest_refines (userAgent : Option Bytes) (url : Bytes) :
    Refines (fun c m => c.request.uri = {} ∧ HoldsContext k rest c m)
      (Unalix.prepareRequest userAgent url) (prepareRequest userAgent url)
      (fun _ _ => HoldsContext k rest) (Failed k rest) := by
  have hadd (key value : Bytes) : Refines (fun c m => c.request.uri = {} ∧ HoldsContext k rest c m)
      (Unalix.contextAddHeader key value) (contextAddHeader key value)
      (fun _ _ c m => c.request.uri = {} ∧ HoldsContext k rest c m) (Failed k rest) := by
    rintro c m ⟨hzero, hm⟩
    obtain ⟨m', hrun, hm'⟩ := hm.addHeader key value
    exact ⟨(), m', hrun, hzero, hm'⟩
  refine Refines.bind (hadd _ _) fun _ _ => ?_
  refine Refines.bind (hadd _ _) fun _ _ => ?_
  exact contextSetUrl_refines url

/-- Preparing a request gives it no body, and leaves the response and the connection alone. -/
theorem kept_of_prepareRequest {userAgent : Option Bytes} {url : Bytes}
    {c c' : Unalix.HTTPContext} {u : Unit} (h : Unalix.prepareRequest userAgent url c = .ok u c') :
    c'.request.body = c.request.body ∧ c'.response = c.response ∧ c'.connection = c.connection := by
  have hkeeps : Keeps (fun c : Unalix.HTTPContext => (c.response, c.connection))
      (Unalix.prepareRequest userAgent url) :=
    (keeps_contextAddHeader _ _).bind fun _ => (keeps_contextAddHeader _ _).bind fun _ =>
      keeps_contextSetUrl url
  have hbody : Keeps (fun c : Unalix.HTTPContext => c.request.body)
      (Unalix.prepareRequest userAgent url) :=
    Keeps.bind (fun _ => rfl) fun _ => Keeps.bind (fun _ => rfl) fun _ =>
      keeps_body_contextSetUrl url
  exact ⟨hbody.ok h, Prod.mk.inj (hkeeps.ok h)⟩

/-- The request of a turn is prepared in its new context. -/
theorem refines_prepareRequest (userAgent : Option Bytes) (timeout : ℤ) (url : Bytes)
    (s : Unalix.Unshort) :
    Refines (fun x m => x.1 = s ∧ x.2 = Unalix.unshortContext timeout ∧ Exchanging k rest s x.2 m)
      (contextOf.run (Unalix.prepareRequest userAgent url))
      (contextPart.run (prepareRequest userAgent url))
      (fun _ _ x m => x.1 = s ∧ (x.2.request.body = [] ∧ x.2.response.body = [] ∧
        x.2.connection.timeout = (Unalix.unshortContext timeout).connection.timeout) ∧
        Exchanging k rest s x.2 m)
      (fun e x m => x.1 = s ∧ FailedExchange k rest e x m) := by
  apply @refines_onContext _ _ _ (fun c => c = Unalix.unshortContext timeout)
    (fun c => c.request.body = [] ∧ c.response.body = [] ∧
      c.connection.timeout = (Unalix.unshortContext timeout).connection.timeout)
  · intro rest
    refine (prepareRequest_refines userAgent url).weaken ?_ (fun _ _ _ _ h => h) fun _ _ _ h => h
    rintro c m ⟨rfl, hm⟩
    exact ⟨rfl, hm⟩
  · rintro c u c' rfl hrun
    obtain ⟨hbody, hresponse, hconnection⟩ := kept_of_prepareRequest hrun
    rw [hbody, hresponse, hconnection]
    exact ⟨rfl, rfl, rfl⟩

/-- The request of a turn is sent. -/
theorem refines_httpRequestSend (exchange : Exchange) (timeout : ℤ) (request : Unalix.HTTPRequest)
    (s : Unalix.Unshort) :
    Refines (fun x m => x.1 = s ∧ (x.2.request = request ∧ x.2.connection.timeout = timeout ∧
        x.2.response.body = []) ∧ Exchanging k rest s x.2 m)
      (contextOf.run (Unalix.httpRequestSend exchange)) (contextPart.run (httpRequestSend exchange))
      (fun _ _ x m => x.1 = s ∧ True ∧
        Exchanging (k + strayBytes exchange timeout request) rest s x.2 m)
      (fun e x m => x.1 = s ∧
        FailedExchange (k + strayBytes exchange timeout request) rest e x m) :=
  refines_onContext (fun _ => httpRequestSend_refines exchange timeout request)
    (fun _ _ _ _ _ => trivial) s

theorem Exchanging.location_eq (hm : Exchanging k rest s c m) : s.location = none := by
  obtain ⟨_, _, hnone, -⟩ := hm
  exact hnone

theorem Exchanging.requests_eq (hm : Exchanging k rest s c m) : m.obj.requests = s.requests := by
  obtain ⟨_, _, -, -, -, hobj, -⟩ := hm
  rw [hobj]
  rfl

theorem Exchanging.readTarget (hm : Exchanging k rest s c m) {target : ℕ} {url : Bytes}
    (htext : s.targetUrl = some url) (htarget : m.obj.targetUrl = some target) :
    heapPart.run (readString target) m = .ok url m := by
  obtain ⟨t, p, -, ht, -, hobj, hh⟩ := hm
  rw [hobj] at htarget
  obtain ⟨⟨_, _⟩, rfl, rfl⟩ := Option.map_eq_some_iff.1 htarget
  cases htext.symm.trans ht.symm
  refine Part.run_eq_ok.2 ⟨m.heap, ?_, rfl⟩
  refine readString_of_mem hh (Multiset.mem_add.2 (.inr (Multiset.mem_add.2 (.inl ?_))))
  exact Multiset.mem_singleton_self _

theorem Exchanging.readRequest (hm : Exchanging k rest s c m) :
    heapPart.run (OnHeap.readRequest m.obj.context.request) m = .ok c.request m := by
  obtain ⟨t, p, -, ht, rfl, hobj, hh⟩ := hm
  refine Part.run_eq_ok.2 ⟨m.heap, ?_, rfl⟩
  rw [hobj]
  rw [PlacedContext.cells, add_assoc] at hh
  exact readRequest_eq hh

/-- A request is recorded. -/
theorem Exchanging.record (hm : Exchanging k rest s c m) (request : Unalix.HTTPRequest) :
    Exchanging k rest { s with requests := s.requests ++ [request] } c
      { m with obj := { m.obj with requests := m.obj.requests ++ [request] } } := by
  obtain ⟨t, p, hnone, ht, hp, hobj, hh⟩ := hm
  exact ⟨t, p, hnone, ht, hp, congrArg (fun s : Unshort =>
    { s with requests := s.requests ++ [request] }) hobj, hh⟩

/-- The location of the response is allocated beside the context. -/
theorem getRedirect_refines (s : Unalix.Unshort) :
    Refines (fun (x : Unalix.Unshort × Unalix.HTTPContext) m =>
        x.1 = s ∧ Exchanging k rest s x.2 m)
      (get >>= fun x => ofOutcome (Unalix.httpGetRedirect x.2))
      (get >>= fun m => heapPart.run (httpGetRedirect m.obj.context))
      (fun dst a x m => x.1 = s ∧ ∃ t : PlacedText, t.record = a ∧ t.value = dst ∧
        Exchanging k (t.cells + rest) s x.2 m)
      (fun e x m => x.1 = s ∧ FailedExchange k rest e x m) := by
  refine Refines.get ?_
  rintro ⟨s, c⟩ ⟨h, obj⟩ ⟨rfl, target, p, hnone, htarget, hp, hobj, hh⟩
  obtain rfl : obj = placedRun s target none p.record := hobj
  rintro _ _ ⟨rfl, rfl⟩
  have hredirect := httpGetRedirect_simulates p h hh
  rw [hp] at hredirect
  cases hr : Unalix.httpGetRedirect c with
  | ok dst =>
    rw [hr] at hredirect
    obtain ⟨a, h', hrun, t, ht, hdst, hh⟩ := hredirect
    simp only
    refine ⟨a, _, Part.run_eq_ok.2 ⟨h', hrun, rfl⟩, rfl, t, ht, hdst, target, p, hnone, htarget, hp,
      rfl, ?_⟩
    rwa [add_left_comm, add_left_comm t.cells] at hh
  | error e =>
    rw [hr] at hredirect
    obtain ⟨h', hrun, hh⟩ := hredirect
    simp only
    exact ⟨_, Part.run_eq_error.2 ⟨h', hrun, rfl⟩, rfl, fun _ _ =>
      ⟨c, rfl, target, p, hnone, htarget, hp, rfl, hh⟩⟩

section Exchange

variable (server : Server) (userAgent : Option Bytes) (timeout : ℤ)

/-- The exchange of a turn, on values. -/
def exchangeValue (url : Bytes) :
    EStateM Failure (Unalix.Unshort × Unalix.HTTPContext) (Option Bytes) := do
  contextOf.run (Unalix.prepareRequest userAgent url)
  let x ← get
  set ({ x.1 with requests := x.1.requests ++ [x.2.request] }, x.2)
  contextOf.run (Unalix.httpRequestSend (server (x.1.requests ++ [x.2.request])))
  let x ← get
  ofOutcome (Unalix.httpGetRedirect x.2)

/-- The end of a turn, when its context is freed. -/
def freedValue (result : EStateM.Result Failure (Unalix.Unshort × Unalix.HTTPContext)
    (Option Bytes)) : Outcome (Option Bytes) × Unalix.Unshort :=
  (outcome result, (final result).1.free (outcome result) (final result).2)

theorem unshortRound_of_error {sourceUrl : Bytes} {e : Failure}
    (h : cleaned (s.location.getD sourceUrl) = .error e) :
    Unalix.unshortRound cleaned server userAgent timeout sourceUrl s =
      (.error e, { s with location := none }) := by
  rw [Unalix.unshortRound, h]

theorem unshortRound_of_ok {sourceUrl url : Bytes}
    (h : cleaned (s.location.getD sourceUrl) = .ok url) :
    Unalix.unshortRound cleaned server userAgent timeout sourceUrl s =
      freedValue (exchangeValue server userAgent url
        ({ s with location := none, targetUrl := some url }, Unalix.unshortContext timeout)) := by
  rw [Unalix.unshortRound, h, freedValue]
  simp only
  cases hprepare : Unalix.prepareRequest userAgent url (Unalix.unshortContext timeout) with
  | error e c =>
    have hrun : exchangeValue server userAgent url
        ({ s with location := none, targetUrl := some url }, Unalix.unshortContext timeout) =
          .error e ({ s with location := none, targetUrl := some url }, c) :=
      run_bind_of_error (Part.run_eq_error.2 ⟨c, hprepare, rfl⟩) _
    rw [hrun]
    rfl
  | ok u c =>
    let s₁ : Unalix.Unshort := { s with location := none, targetUrl := some url
                                        requests := s.requests ++ [c.request] }
    have hrun : exchangeValue server userAgent url
        ({ s with location := none, targetUrl := some url }, Unalix.unshortContext timeout) =
          (contextOf.run (Unalix.httpRequestSend (server s₁.requests)) >>= fun _ =>
            get >>= fun x => ofOutcome (Unalix.httpGetRedirect x.2)) (s₁, c) :=
      run_bind_of_ok (Part.run_eq_ok.2 ⟨c, hprepare, rfl⟩) _
    rw [hrun]
    simp only
    cases hsend : Unalix.httpRequestSend (server s₁.requests) c with
    | error e c' =>
      rw [run_bind_of_error (Part.run_eq_error.2 ⟨c', hsend, rfl⟩)]
      rfl
    | ok u c' =>
      rw [run_bind_of_ok (Part.run_eq_ok.2 ⟨c', hsend, rfl⟩), run_get_bind]
      cases hredirect : Unalix.httpGetRedirect c' with
      | error e =>
        simp only [contextOf, hredirect]
        rfl
      | ok dst =>
        simp only [contextOf, hredirect]
        rfl

/-- How many of the requests were printed, each in the exchange that it was sent in. -/
def printedRequests (requests : List Unalix.HTTPRequest) : ℕ :=
  requests.inits.countP fun sent => sent.getLast?.any fun request =>
    Printed (server sent) (Unalix.unshortContext timeout).connection.timeout request

theorem printedRequests_concat (requests : List Unalix.HTTPRequest) (request : Unalix.HTTPRequest) :
    printedRequests server timeout (requests ++ [request]) =
      printedRequests server timeout requests +
        if Printed (server (requests ++ [request]))
          (Unalix.unshortContext timeout).connection.timeout request then 1 else 0 := by
  have hinits : (requests ++ [request]).inits = requests.inits ++ [requests ++ [request]] := by
    rw [List.inits_append]
    rfl
  simp only [printedRequests, hinits, List.countP_append, List.countP_singleton,
    List.getLast?_concat, Option.any_some, decide_eq_true_eq]

/-- **The exchange of a turn in memory**, with the variables `s` and a new context. A request that is
printed goes on behind its buffer by one byte, and nothing else leaves its block. -/
theorem exchangeUrl_refines (s : Unalix.Unshort) (url : Bytes) (target : ℕ) :
    Refines (fun x m => (x.1 = s ∧ x.2 = Unalix.unshortContext timeout) ∧
        s.targetUrl = some url ∧ m.obj.targetUrl = some target ∧
        Exchanging (k + printedRequests server timeout s.requests) rest s x.2 m)
      (exchangeValue server userAgent url) (exchangeUrl server userAgent target)
      (fun dst a x m => ∃ t : PlacedText, t.record = a ∧ t.value = dst ∧
        Exchanging (k + printedRequests server timeout x.1.requests) (t.cells + rest) x.1 x.2 m)
      (fun e x m => FailedExchange (k + printedRequests server timeout x.1.requests) rest e x m) := by
  unfold exchangeValue exchangeUrl
  have hfailed (s : Unalix.Unshort) (e : Failure) (x : Unalix.Unshort × Unalix.HTTPContext)
      (m : Filling Unshort) (h : x.1 = s ∧
        FailedExchange (k + printedRequests server timeout s.requests) rest e x m) :
      FailedExchange (k + printedRequests server timeout x.1.requests) rest e x m := by
    obtain ⟨rfl, h⟩ := h
    exact h
  refine Refines.step (S := fun text x m => text = url ∧ x.1 = s ∧
    x.2 = Unalix.unshortContext timeout ∧
      Exchanging (k + printedRequests server timeout s.requests) rest s x.2 m) ?_ fun text => ?_
  · rintro x m ⟨⟨hs, hc⟩, htext, htarget, hm⟩
    exact ⟨url, m, hm.readTarget htext htarget, rfl, hs, hc, hm⟩
  refine Refines.assume ?_
  rintro rfl
  refine Refines.bind ((refines_prepareRequest userAgent timeout text s).weaken (fun _ _ h => h)
    (fun _ _ _ _ h => h) (hfailed s)) fun _ _ => ?_
  refine Refines.get ?_
  rintro ⟨s, c⟩ m ⟨rfl, ⟨hnone, hbody, htimeout⟩, hm⟩
  refine Refines.step (S := fun request x m' => request = c.request ∧ x = (s, c) ∧ m' = m) ?_
    fun request => ?_
  · rintro _ m ⟨rfl, rfl⟩
    exact ⟨c.request, m, hm.readRequest, rfl, rfl, rfl⟩
  refine Refines.assume ?_
  rintro rfl
  rw [hm.requests_eq]
  -- the request is recorded and sent
  let s' : Unalix.Unshort := { s with requests := s.requests ++ [c.request] }
  refine Refines.bind (Q := fun _ _ x m => x.1 = s' ∧ x.2 = c ∧
    Exchanging (k + printedRequests server timeout s.requests) rest s' x.2 m) ?_ fun _ _ => ?_
  · rintro _ _ ⟨rfl, rfl⟩
    exact ⟨(), _, rfl, rfl, rfl, hm.record c.request⟩
  have hcount : k + printedRequests server timeout s.requests +
      strayBytes (server (s.requests ++ [c.request]))
        (Unalix.unshortContext timeout).connection.timeout c.request =
      k + printedRequests server timeout s'.requests := by
    rw [printedRequests_concat, strayBytes_of_body_eq_nil hnone, add_assoc]
  have hsend := @refines_httpRequestSend (k + printedRequests server timeout s.requests) rest
    (server (s.requests ++ [c.request])) (Unalix.unshortContext timeout).connection.timeout
    c.request s'
  rw [hcount] at hsend
  refine Refines.bind (hsend.weaken ?_ (fun _ _ _ _ h => h) (hfailed s')) fun _ _ => ?_
  · rintro x m ⟨hs, hc, hm⟩
    refine ⟨hs, ?_, hm⟩
    rw [hc]
    exact ⟨rfl, htimeout, hbody⟩
  refine (getRedirect_refines s').weaken (fun _ _ h => ⟨h.1, h.2.2⟩) ?_ (hfailed s')
  rintro dst a x m ⟨hs, t, ht, hdst, hm⟩
  rw [hs]
  exact ⟨t, ht, hdst, hm⟩

end Exchange

/-! ## A turn -/

/-- The context of a turn is freed. -/
theorem Exchanging.freeContext {result : Outcome (Option Bytes)} (hresult : Returns result)
    (hm : Exchanging k rest s c m) :
    ∃ m', OnHeap.freeContext m = .ok () m' ∧ HoldsRun k rest (s.free result c) m' := by
  obtain ⟨h, obj⟩ := m
  obtain ⟨target, p, hnone, htarget, rfl, hobj, hh⟩ := hm
  obtain rfl : obj = placedRun s target none p.record := hobj
  obtain ⟨p', h', hfree, hvalue, -, hh⟩ := exists_httpContextFree hh
  refine ⟨_, run_bind_of_ok (Part.run_eq_ok.2 ⟨h', hfree, rfl⟩) _, target, none, p'.record, htarget,
    hnone.symm, ?_, ?_⟩
  · rw [Unshort.free, freeAfter_of_returns hresult, ← hvalue]
    rfl
  · rwa [PlacedText.cells_none, zero_add]

/-- A cleaned URL becomes the target, and the context of the turn is made. -/
theorem HoldsRun.beginExchange {a : ℕ} {url : Bytes}
    (hm : HoldsRun k ((a, .string (.exact url)) ::ₘ rest) s m) (hlocation : s.location = none)
    (timeout : ℤ) :
    ∃ m', (setTarget a >>= fun _ =>
        assign fun s : Unshort => { s with context := unshortContext timeout }) m = .ok () m' ∧
      m'.obj.targetUrl = some a ∧
      Exchanging k rest { s with targetUrl := some url } (Unalix.unshortContext timeout) m' := by
  obtain ⟨h, obj⟩ := m
  obtain ⟨target, location, context, htarget, hnone, hobj, hh⟩ := hm
  obtain rfl : obj = placedRun s target location context := hobj
  cases PlacedText.eq_none_of_value (hnone.trans hlocation)
  obtain ⟨h', hfree, hh⟩ := exists_freePointer hh
  have hset : setTarget a ⟨h, placedRun s target none context⟩ =
      .ok () ⟨h', placedRun s (some (a, .exact url)) none context⟩ :=
    run_bind_of_ok (Part.run_eq_ok.2 ⟨h', hfree, rfl⟩) _
  refine ⟨_, run_bind_of_ok hset _, rfl, some (a, .exact url),
    { connection := (Unalix.unshortContext timeout).connection }, hlocation, rfl, rfl, rfl, ?_⟩
  have hzero : PlacedContext.cells
      { connection := (Unalix.unshortContext timeout).connection } = 0 := rfl
  rw [PlacedText.cells_none, zero_add] at hh
  rwa [hzero, zero_add, PlacedText.cells_some, Multiset.singleton_add]

section Turn

variable (server : Server) (userAgent : Option Bytes) (timeout : ℤ)

/-- Between two turns of a run that began when `k` bytes outside of blocks had been accessed. -/
def Running (k : ℕ) (rest : Multiset (ℕ × Block)) (s : Unalix.Unshort) (m : Filling Unshort) :
    Prop :=
  HoldsRun (k + printedRequests server timeout s.requests) rest s m

/-- A turn ends as it does on values, and leaves its target and the location of its response. -/
def Turned (k : ℕ) (rest : Multiset (ℕ × Block))
    (expected : Outcome (Option Bytes) × Unalix.Unshort)
    (result : EStateM.Result Failure (Filling Unshort) (Option ℕ)) : Prop :=
  match expected.1 with
  | .ok dst => ∃ (t : PlacedText) (m : Filling Unshort), result = .ok t.record m ∧
      t.value = dst ∧ expected.2.location = none ∧
      Running server timeout k (t.cells + rest) expected.2 m
  | .error e => ∃ m, result = .error e m ∧
      ∀ code, e = .code code → Running server timeout k rest expected.2 m

/-- **One turn.** -/
theorem unshortRound_turned {sourceUrl : Bytes}
    (hclean : Cleans clean cleaned (s.location.getD sourceUrl))
    (hm : Running server timeout k rest s m) :
    Turned server timeout k rest (Unalix.unshortRound cleaned server userAgent timeout sourceUrl s)
      (unshortRound clean server userAgent timeout sourceUrl m) := by
  have hcall := cleanNext_simulates hclean m hm
  cases hr : cleaned (s.location.getD sourceUrl) with
  | error e =>
    rw [hr] at hcall
    obtain ⟨m', hrun, hm'⟩ := hcall
    rw [unshortRound_of_error server userAgent timeout hr]
    exact ⟨m', run_bind_of_error hrun _, hm'⟩
  | ok url =>
    rw [hr] at hcall
    obtain ⟨a, m₁, hrun, hm₁⟩ := hcall
    obtain ⟨m₂, hbegin, htarget, hm₂⟩ := hm₁.beginExchange rfl timeout
    have hexchange := @exchangeUrl_refines k rest server userAgent timeout
      { s with location := none, targetUrl := some url } url a
      ({ s with location := none, targetUrl := some url }, Unalix.unshortContext timeout) m₂
      ⟨⟨rfl, rfl⟩, rfl, htarget, hm₂⟩
    have hround : unshortRound clean server userAgent timeout sourceUrl m =
        thenAlways (exchangeUrl server userAgent a) freeContext m₂ := by
      rw [unshortRound, run_bind_of_ok hrun, ← bind_assoc, run_bind_of_ok hbegin]
    rw [unshortRound_of_ok server userAgent timeout hr, hround]
    cases hx : exchangeValue server userAgent url
        ({ s with location := none, targetUrl := some url }, Unalix.unshortContext timeout) with
    | ok dst x =>
      rw [hx] at hexchange
      obtain ⟨_, m₃, hrun₃, t, rfl, rfl, hm₃⟩ := hexchange
      obtain ⟨m', hfree, hm'⟩ := hm₃.freeContext (returns_ok t.value)
      exact ⟨t, m', thenAlways_of_ok hrun₃ hfree, rfl, hm₃.location_eq, hm'⟩
    | error e x =>
      rw [hx] at hexchange
      obtain ⟨m₃, hrun₃, hfailed⟩ := hexchange
      cases e with
      | fault f => exact ⟨m₃, thenAlways_of_fault hrun₃, fun _ => nofun⟩
      | code code =>
        obtain ⟨c', hconnection, hm₃⟩ := hfailed code rfl
        obtain ⟨m', hfree, hm'⟩ := hm₃.freeContext (returns_fail code)
        have hsame : x.1.free (fail code) c' = x.1.free (fail code) x.2 := by
          simp only [Unshort.free, freeAfter, fail, Unalix.httpContextFree, hconnection]
        rw [hsame] at hm'
        exact ⟨m', thenAlways_of_code hrun₃ hfree, fun _ _ => hm'⟩

/-! ## A run -/

/-- A run ends with the same code as on values, and what it owns then is in memory. -/
def Finished (k : ℕ) (rest : Multiset (ℕ × Block)) (expected : Outcome Unit × Unalix.Unshort)
    (result : Outcome Unit × Filling Unshort) : Prop :=
  result.1 = expected.1 ∧
    (Returns expected.1 → Running server timeout k rest expected.2 result.2)

/-- **The loop goes on, or the function returns**, as on values. -/
theorem unshortStep_rel {sourceUrl : Bytes}
    (hclean : Cleans clean cleaned (s.location.getD sourceUrl)) (hm : Running server timeout k rest s m) :
    Sum.LiftRel (Running server timeout k rest) (Finished server timeout k rest)
      (Unalix.unshortStep cleaned server userAgent timeout sourceUrl s)
      (unshortStep clean server userAgent timeout sourceUrl m) := by
  have hturned := unshortRound_turned server userAgent timeout hclean hm
  rw [Unalix.unshortStep, unshortStep]
  rcases hround : Unalix.unshortRound cleaned server userAgent timeout sourceUrl s with
    ⟨e | _ | location, s'⟩
  · rw [hround] at hturned
    obtain ⟨m', hrun, hm'⟩ := hturned
    rw [hrun]
    refine .inr ⟨rfl, fun hreturns => ?_⟩
    cases e with
    | code code => exact hm' code rfl
    | fault f => exact absurd rfl (hreturns f)
  · rw [hround] at hturned
    obtain ⟨t, m', hrun, ht, -, hm'⟩ := hturned
    cases PlacedText.eq_none_of_value ht
    rw [hrun]
    refine .inr ⟨rfl, fun _ => ?_⟩
    rwa [PlacedText.cells_none, zero_add] at hm'
  · rw [hround] at hturned
    obtain ⟨t, ⟨h', obj⟩, hrun, ht, hnone, target, location', context, htarget, hlocation, hobj,
      hh⟩ := hturned
    obtain rfl : obj = placedRun s' target location' context := hobj
    cases PlacedText.eq_none_of_value (hlocation.trans hnone)
    obtain ⟨⟨a, location⟩, rfl, rfl⟩ := Option.map_eq_some_iff.1 ht
    rw [hrun]
    rw [PlacedText.cells_none, zero_add] at hh
    have hnext : Running server timeout k rest
        { s' with location := some location.content, totalRedirects := s'.totalRedirects + 1 }
        ⟨h', { placedRun s' target none context with
          location := some a
          totalRedirects := s'.totalRedirects + 1 }⟩ :=
      ⟨target, some (a, location), context, htarget, rfl, rfl, hh⟩
    by_cases hlimit : httpDefaultMaxRedirects < s'.totalRedirects + 1
    · simp only [placedRun, if_pos hlimit, PlacedText.record, Option.map_some]
      exact .inr ⟨rfl, fun _ => hnext⟩
    · simp only [placedRun, if_neg hlimit, PlacedText.record, Option.map_some]
      exact .inl hnext

/-- Between two turns of a run on values there is a location behind each redirect only. -/
theorem location_of_unshortRound (sourceUrl : Bytes) (s : Unalix.Unshort) :
    (Unalix.unshortRound cleaned server userAgent timeout sourceUrl s).2.location = none := by
  unfold Unalix.unshortRound
  split
  · rfl
  · simp only
    split
    · rfl
    · split <;> rfl

/-- At the end of a run on values there is a location when there was one redirect too many. -/
theorem location_eq_none_iff {sourceUrl : Bytes} {targetUrl : Option Bytes} {turns : ℕ}
    {code : Outcome Unit} {s' : Unalix.Unshort}
    (h : follow (Unalix.unshortStep cleaned server userAgent timeout sourceUrl) turns
      { targetUrl := targetUrl } = some (code, s')) :
    s'.location = none ↔ s'.totalRedirects ≤ httpDefaultMaxRedirects := by
  obtain ⟨n, hn, s, hs, hend⟩ := exists_of_follow h
  have hcounter := (redirected_counts hs).1
  have hround := (@unshortRound_counts cleaned server userAgent timeout sourceUrl s).1
  have hlocation := @location_of_unshortRound cleaned server userAgent timeout sourceUrl s
  rcases hend with ⟨rfl, -, hnext⟩ | ⟨e, -, heq⟩ | ⟨-, heq⟩
  · have hcounter' := (nextRound_counts hnext).1
    refine iff_of_false ?_ (by omega)
    unfold nextRound at hnext
    split at hnext
    · rw [← Option.some.inj hnext]
      nofun
    · cases hnext
  · rw [heq] at hround hlocation
    simp only at hround
    exact iff_of_true hlocation (by omega)
  · rw [heq] at hround hlocation
    simp only at hround
    exact iff_of_true hlocation (by omega)

end Turn

/-! ## What a run leaves -/

/-- `unalix_clean_url` with these flags, in runs of at most `fuel url` calls. -/
def cleanWithin {Code : Type} (pcre : Pcre Code) (rulesets : Rulesets Code) (flags : Flags)
    (fuel : Bytes → ℕ) (url : Bytes) : HeapCall ℕ := fun h =>
  match unalixCleanUrl pcre rulesets (fuel url) { sourceUrl := some url, flags := flags } h with
  | some result => result
  | none => .error invalid h

theorem cleans_cleanWithin {Code : Type} {pcre : Pcre Code} {rulesets : Rulesets Code}
    {flags : Flags} {fuel : Bytes → ℕ} {url : Bytes}
    (hfuel : Unalix.unalixCleanUrl pcre rulesets (fuel url) (some url) flags =
      some (cleaned url)) : Cleans (cleanWithin pcre rulesets flags fuel) cleaned url := by
  intro k rest h hh
  have hended := ended_unalixCleanUrl pcre rulesets (fuel url) ⟨some url, flags⟩ hh
  have hvalue : Chains.follow (Unalix.cleanStep pcre rulesets) (fuel url) ⟨some url, flags⟩ =
      some (cleaned url) := hfuel
  rw [hvalue] at hended
  rw [cleanWithin]
  cases hr : cleaned url with
  | ok text =>
    rw [hr] at hended
    obtain ⟨a, h', hrun, hh'⟩ := hended
    rw [hrun]
    exact ⟨a, h', rfl, hh'⟩
  | error e =>
    rw [hr] at hended
    obtain ⟨h', hrun, hh'⟩ := hended
    rw [hrun]
    exact ⟨h', rfl, hh'⟩

/-- What is left of a run besides the blocks of `rest`: the target, and a lost block when there were
too many redirects. Of each request that was printed, one byte lies behind its buffer. -/
def Leaves (server : Server) (timeout : ℤ) (k : ℕ) (rest : Multiset (ℕ × Block))
    (s : Unalix.Unshort) (m : Filling Unshort) : Prop :=
  ∃ target lost : PlacedText, target.record = m.obj.targetUrl ∧ target.value = s.targetUrl ∧
    (lost = none ↔ s.totalRedirects ≤ httpDefaultMaxRedirects) ∧
    Holds (k + printedRequests server timeout s.requests) m.heap (target.cells + (lost.cells + rest))

/-- On the URLs that a run for `source` hands to it, `unalix_clean_url` returns with the results
`cleaned`. -/
def CleansAlong {Code : Type} (pcre : Pcre Code) (rulesets : Rulesets Code) (flags : Flags)
    (fuel : Bytes → ℕ) (cleaned : Bytes → Outcome Bytes) (server : Server)
    (userAgent : Option Bytes) (timeout : ℤ) (source : Bytes) (targetUrl : Option Bytes) : Prop :=
  ∀ s, Met (Unalix.unshortStep cleaned server userAgent timeout source)
      { targetUrl := targetUrl } s →
    Unalix.unalixCleanUrl pcre rulesets (fuel (s.location.getD source))
      (some (s.location.getD source)) flags = some (cleaned (s.location.getD source))

/-- **`unalix_unshort_url` in memory.** When `unalix_clean_url` returns on the URLs that the run hands
to it, the run ends as it does on values, whatever the servers answer, and has freed nothing twice.
When it returns, the target is the one block that it has left in memory, unless it has followed too
many redirects: then the last location is left as well, and nothing leads to it. The only bytes
outside of blocks that it has accessed are those behind the buffers of its requests, one for each
request that was printed. -/
theorem unalixUnshortUrl_memory {Code : Type} {pcre : Pcre Code} {rulesets : Rulesets Code}
    {flags : Flags} {fuel : Bytes → ℕ} (server : Server) (userAgent : Option Bytes) (timeout : ℤ)
    (sourceUrl : Option Bytes) {target : PlacedText} {h : Heap Block}
    (hcleans : ∀ source ∈ sourceUrl, CleansAlong pcre rulesets flags fuel cleaned server userAgent
      timeout source target.value) (hh : Holds k h (target.cells + rest)) :
    ∃ code s m, Unalix.unalixUnshortUrl cleaned server userAgent timeout
        (httpDefaultMaxRedirects + 1) sourceUrl target.value = some (code, s) ∧
      unalixUnshortUrl (cleanWithin pcre rulesets flags fuel) server userAgent timeout
        (httpDefaultMaxRedirects + 1) sourceUrl target.record h = some (code, m) ∧
      (Returns code → Leaves server timeout k rest s m) := by
  have hbegin : Running server timeout k rest { targetUrl := target.value }
      ⟨h, { targetUrl := target.record }⟩ :=
    ⟨target, none, {}, rfl, rfl, rfl, by rwa [PlacedText.cells_none, zero_add]⟩
  have hinvalid : Leaves server timeout k rest { targetUrl := target.value }
      ⟨h, { targetUrl := target.record }⟩ :=
    ⟨target, none, rfl, rfl, iff_of_true rfl (Nat.zero_le _),
      by rwa [PlacedText.cells_none, zero_add]⟩
  rcases sourceUrl with _ | _ | ⟨ch, source⟩
  · exact ⟨_, _, _, rfl, rfl, fun _ => hinvalid⟩
  · exact ⟨_, _, _, rfl, rfl, fun _ => hinvalid⟩
  · obtain ⟨⟨code, s⟩, hrun⟩ :=
      @exists_follow_unshortStep cleaned server userAgent timeout (ch :: source) target.value
    have hrel := follow_rel (fun s _ hmet => unshortStep_rel server userAgent timeout
      (cleans_cleanWithin (hcleans _ rfl s hmet))) (httpDefaultMaxRedirects + 1) hbegin
    rw [hrun] at hrel
    cases hrun' : follow (unshortStep (cleanWithin pcre rulesets flags fuel) server userAgent
        timeout (ch :: source)) (httpDefaultMaxRedirects + 1)
        ⟨h, { targetUrl := target.record }⟩ with
    | none =>
      rw [hrun'] at hrel
      cases hrel
    | some result =>
      obtain ⟨code', m⟩ := result
      rw [hrun', Option.rel_some_some] at hrel
      obtain ⟨rfl, hm⟩ := hrel
      refine ⟨code', s, m, hrun, hrun', fun hreturns => ?_⟩
      obtain ⟨target', lost, context, htarget, hlost, hobj, hh⟩ := hm hreturns
      refine ⟨target', lost, ?_, htarget, ?_, hh⟩
      · rw [hobj]
        rfl
      · rw [← location_eq_none_iff server userAgent timeout hrun, ← hlost]
        exact Option.map_eq_none_iff.symm

/-- The outcome of `unalix_clean_url` where its first call is the only one. -/
def cleanedOnce {Code : Type} (pcre : Pcre Code) (rulesets : Rulesets Code) (flags : Flags)
    (url : Bytes) : Outcome Bytes :=
  match Unalix.cleanStep pcre rulesets ⟨some url, flags⟩ with
  | .inl _ => fail .argInvalid
  | .inr result => result

/-- With redirections ignored, every call of `unalix_clean_url` is the only one. -/
theorem unalixCleanUrl_of_ignored {Code : Type} (pcre : Pcre Code) (rulesets : Rulesets Code)
    {flags : Flags} (h : flags.ignoreRedirections ≠ 0) (url : Bytes) :
    Unalix.unalixCleanUrl pcre rulesets 1 (some url) flags =
      some (cleanedOnce pcre rulesets flags url) := by
  rw [cleanedOnce]
  cases hstep : Unalix.cleanStep pcre rulesets ⟨some url, flags⟩ with
  | inl args =>
    obtain ⟨-, sourceUrl, ovector, -, -, hfirst, -⟩ := cleanStep_eq_inl hstep
    rw [firstRedirection, if_neg h] at hfirst
    cases hfirst
  | inr result => exact follow_succ_of_inr hstep 0

/-- A server that redirects every request. -/
def redirectingServer : Server := fun _ =>
  { incoming := [.chunk (str "HTTP/1.0 302 Found\r\nLocation: http://b.com\r\n\r\n")] }

/-- After too many redirects the target and the last location are left, and twenty-one requests were
printed. -/
theorem unalixUnshortUrl_memory_redirecting : ∃ m, ∃ target lost : ℕ × Text,
    unalixUnshortUrl (cleanWithin Pattern.pcre ⟨88, [sampleRuleset]⟩ { ignoreRedirections := 1 }
        fun _ => 1) redirectingServer none 0 (httpDefaultMaxRedirects + 1)
        (some (str "http://a.com")) none Heap.empty = some (fail .httpTooManyRedirects, m) ∧
      m.obj.targetUrl = some target.1 ∧
      Holds 21 m.heap {(target.1, .string target.2), (lost.1, .string lost.2)} := by
  have hbegin : Holds 0 Heap.empty (PlacedText.cells none + 0) := by
    rw [add_zero]
    exact holds_empty
  have hignored : ({ ignoreRedirections := 1 } : Flags).ignoreRedirections ≠ 0 := by decide
  have hcleans (source : Bytes) (_ : source ∈ some (str "http://a.com")) :
      CleansAlong Pattern.pcre ⟨88, [sampleRuleset]⟩ { ignoreRedirections := 1 } (fun _ => 1)
        (cleanedOnce Pattern.pcre ⟨88, [sampleRuleset]⟩ { ignoreRedirections := 1 })
        redirectingServer none 0 source (PlacedText.value none) := fun s _ =>
    unalixCleanUrl_of_ignored _ _ hignored (s.location.getD source)
  obtain ⟨code, s, m, hvalue, hrun, hleaves⟩ := unalixUnshortUrl_memory redirectingServer none 0
    (some (str "http://a.com")) hcleans hbegin
  have hend : (Unalix.unalixUnshortUrl
      (cleanedOnce Pattern.pcre ⟨88, [sampleRuleset]⟩ { ignoreRedirections := 1 })
      redirectingServer none 0 (httpDefaultMaxRedirects + 1) (some (str "http://a.com"))
      (PlacedText.value none)).map (fun result => (result.1, result.2.targetUrl,
        result.2.totalRedirects, printedRequests redirectingServer 0 result.2.requests)) =
      some (fail .httpTooManyRedirects, some (str "http://b.com/"), 21, 21) := by
    decide +kernel
  rw [hvalue, Option.map_some, Option.some.injEq, Prod.mk.injEq, Prod.mk.injEq, Prod.mk.injEq] at hend
  obtain ⟨rfl, htarget, hredirects, hprinted⟩ := hend
  obtain ⟨target, lost, hrecord, htext, hlost, hh⟩ := hleaves (returns_fail _)
  rw [htarget] at htext
  obtain ⟨target, rfl, -⟩ := Option.map_eq_some_iff.1 htext
  have hne : lost ≠ none := by
    rw [ne_eq, hlost, hredirects]
    decide
  obtain ⟨lost, rfl⟩ := Option.ne_none_iff_exists'.1 hne
  refine ⟨m, target, lost, hrun, hrecord.symm, ?_⟩
  rwa [hprinted, zero_add, PlacedText.cells_some, PlacedText.cells_some, add_zero,
    Multiset.singleton_add] at hh

end Spec

end Unalix.OnHeap
