import Unalix.OnHeap.Pairs

/-!
# HTTP contexts in memory (`http.c`)

A `struct HTTPContext` owns the headers of the request and of the response, with their texts, the
two bodies and the texts of the URI. `http_headers_free` and `http_body_free` look at a size to
decide whether there is anything to free, so the sizes have to tell which of the pointers are null
(`PlacedHeaders`, `PlacedBody`). Then `http_context_free` frees all of it, and a context that is
freed once more frees nothing (`exists_httpContextFree`).
-/

namespace Unalix.OnHeap

open Calls Heaps CString Ascii

/-! ## Records -/

/-- `struct HTTPHeaders`. -/
structure HTTPHeaders where
  size : ℕ := 0
  offset : ℕ := 0
  slength : ℕ := 0
  items : Option ℕ := none
  deriving DecidableEq, Repr

/-- `struct HTTPBody`. -/
structure HTTPBody where
  size : ℕ := 0
  content : Option ℕ := none
  deriving DecidableEq, Repr

/-- `struct HTTPRequest`. -/
structure HTTPRequest where
  version : HTTPVersion := .http10
  method : HTTPMethod := .get
  headers : HTTPHeaders := {}
  body : HTTPBody := {}
  uri : URI := {}
  deriving DecidableEq, Repr

/-- `struct HTTPResponse`. -/
structure HTTPResponse where
  status : HTTPStatus := {}
  version : HTTPVersion := .http10
  headers : HTTPHeaders := {}
  body : HTTPBody := {}
  deriving DecidableEq, Repr

/-- `struct HTTPContext`. -/
structure HTTPContext where
  request : HTTPRequest := {}
  response : HTTPResponse := {}
  connection : Connection := {}
  deriving DecidableEq, Repr

/-! ## Headers -/

/-- `http_headers_add`. -/
def httpHeadersAdd (obj : HTTPHeaders) (key value : Bytes) : HeapCall HTTPHeaders := do
  let keyCopy ← allocString key
  let valueCopy ← allocString value
  let size := obj.size + sizeofHTTPHeader * 1
  let items ← appendPair obj.items (size / sizeofHTTPHeader) obj.offset
    { key := some keyCopy, value := some valueCopy }
  let slength := if 0 < obj.slength then obj.slength + crlf.length else obj.slength
  let slength := slength + key.length + ([colon].length + [space].length) + value.length
  return { size := size, offset := obj.offset + 1, slength := slength, items := some items }

/-- The body of the loop of `http_headers_free`. -/
def freeHeader (items : Option ℕ) (index : ℕ) : HeapCall PUnit := do
  let header ← getPair items index
  freePointer header.key
  setPair items index { header with key := none }
  freePointer header.value
  setPair items index { key := none, value := none }

/-- `http_headers_free`: the struct that is left. -/
def httpHeadersFree (obj : HTTPHeaders) : HeapCall HTTPHeaders :=
  if obj.size < 1 then pure obj
  else do
    forRange (freeHeader obj.items) obj.offset 0
    freePointer obj.items
    return { obj with size := 0, offset := 0, items := none }

/-- The texts of a header. -/
def readHeader (items : Option ℕ) (index : ℕ) : HeapCall HTTPHeader := do
  let header ← getPair items index
  match header.key, header.value with
  | some key, some value => do
    let key ← readString key
    let value ← readString value
    return { key := key, value := value }
  | _, _ => throw invalid

/-- The headers that the pointers of a struct lead to. -/
def readHeaders (obj : HTTPHeaders) : HeapCall Unalix.HTTPHeaders := do
  let items ← mapRange (readHeader obj.items) obj.offset 0
  return { size := obj.size, items := items, slength := obj.slength }

/-! ## Contexts -/

/-- `http_body_free`: the struct that is left. -/
def httpBodyFree (obj : HTTPBody) : HeapCall HTTPBody :=
  if obj.size < 1 then pure obj
  else do
    freePointer obj.content
    return {}

/-- The bytes in the block at `a`. -/
def readBytes (a : ℕ) : HeapCall Bytes := do
  match ← read invalid a with
  | .bytes content => return content
  | _ => throw invalid

/-- `malloc` for as many bytes, and the bytes copied. -/
def allocBytes (content : Bytes) : HeapCall ℕ := alloc (.bytes content)

/-- The bytes of a body. -/
def readBody (obj : HTTPBody) : HeapCall Bytes :=
  match obj.content with
  | none => pure []
  | some content => readBytes content

/-- `http_request_free`: the struct that is left. -/
def httpRequestFree (obj : HTTPRequest) : HeapCall HTTPRequest := do
  let headers ← httpHeadersFree obj.headers
  let body ← httpBodyFree obj.body
  uriFree obj.uri
  return { headers := headers, body := body }

/-- `http_response_free`: the struct that is left. -/
def httpResponseFree (obj : HTTPResponse) : HeapCall HTTPResponse := do
  let headers ← httpHeadersFree obj.headers
  let body ← httpBodyFree obj.body
  return { headers := headers, body := body }

/-- `http_context_free`: the struct that is left. -/
def httpContextFree (context : HTTPContext) : HeapCall HTTPContext := do
  let connection := connectionFree context.connection
  let request ← httpRequestFree context.request
  let response ← httpResponseFree context.response
  return { request := request, response := response, connection := connection }

def readRequest (obj : HTTPRequest) : HeapCall Unalix.HTTPRequest := do
  let headers ← readHeaders obj.headers
  let body ← readBody obj.body
  let uri ← readUri obj.uri
  return { version := obj.version, method := obj.method, headers := headers, body := body,
           uri := uri }

def readResponse (obj : HTTPResponse) : HeapCall Unalix.HTTPResponse := do
  let headers ← readHeaders obj.headers
  let body ← readBody obj.body
  return { status := obj.status, version := obj.version, headers := headers, body := body }

/-! ## Placed values -/

namespace PlacedPair

/-- The two texts of a header are there. -/
def Complete (t : PlacedPair) : Prop := t.key.isSome = true ∧ t.value.isSome = true

/-- The header that a pair stands for. -/
def header (t : PlacedPair) : HTTPHeader where
  key := text t.key.value
  value := text t.value.value

end PlacedPair

/-- A `struct HTTPHeaders` with its array, which is there when a header is. -/
structure PlacedHeaders extends PlacedPairs where
  slength : ℕ := 0
  complete : ∀ t ∈ items, t.Complete := by exact fun _ h => nomatch h
  array_of_nil : items = [] → array = none := by exact fun _ => rfl

namespace PlacedHeaders

def record (q : PlacedHeaders) : HTTPHeaders where
  size := sizeofHTTPHeader * q.items.length
  offset := q.items.length
  slength := q.slength
  items := q.array

def value (q : PlacedHeaders) : Unalix.HTTPHeaders where
  size := sizeofHTTPHeader * q.items.length
  items := q.items.map PlacedPair.header
  slength := q.slength

end PlacedHeaders

/-- A `struct HTTPBody`: without bytes it has no content. -/
structure PlacedBody where
  content : Option (ℕ × Bytes) := none
  nonempty : ∀ t ∈ content, t.2 ≠ [] := by exact nofun

namespace PlacedBody

def value (b : PlacedBody) : Bytes := b.content.elim [] Prod.snd

def record (b : PlacedBody) : HTTPBody where
  size := b.value.length
  content := b.content.map Prod.fst

def cells (b : PlacedBody) : Multiset (ℕ × Block) := b.content.elim 0 fun t => {(t.1, .bytes t.2)}

end PlacedBody

/-- A `struct HTTPRequest` with what it owns. -/
structure PlacedRequest where
  version : HTTPVersion := .http10
  method : HTTPMethod := .get
  headers : PlacedHeaders := {}
  body : PlacedBody := {}
  uri : PlacedUri := {}

namespace PlacedRequest

def record (r : PlacedRequest) : HTTPRequest where
  version := r.version
  method := r.method
  headers := r.headers.record
  body := r.body.record
  uri := r.uri.record

def value (r : PlacedRequest) : Unalix.HTTPRequest where
  version := r.version
  method := r.method
  headers := r.headers.value
  body := r.body.value
  uri := r.uri.value

def cells (r : PlacedRequest) : Multiset (ℕ × Block) :=
  r.headers.cells + (r.body.cells + r.uri.cells)

end PlacedRequest

/-- A `struct HTTPResponse` with what it owns. -/
structure PlacedResponse where
  status : HTTPStatus := {}
  version : HTTPVersion := .http10
  headers : PlacedHeaders := {}
  body : PlacedBody := {}

namespace PlacedResponse

def record (r : PlacedResponse) : HTTPResponse where
  status := r.status
  version := r.version
  headers := r.headers.record
  body := r.body.record

def value (r : PlacedResponse) : Unalix.HTTPResponse where
  status := r.status
  version := r.version
  headers := r.headers.value
  body := r.body.value

def cells (r : PlacedResponse) : Multiset (ℕ × Block) := r.headers.cells + r.body.cells

end PlacedResponse

/-- A `struct HTTPContext` with what it owns. -/
structure PlacedContext where
  request : PlacedRequest := {}
  response : PlacedResponse := {}
  connection : Connection := {}

namespace PlacedContext

def record (p : PlacedContext) : HTTPContext where
  request := p.request.record
  response := p.response.record
  connection := p.connection

def value (p : PlacedContext) : Unalix.HTTPContext where
  request := p.request.value
  response := p.response.value
  connection := p.connection

def cells (p : PlacedContext) : Multiset (ℕ × Block) := p.request.cells + p.response.cells

end PlacedContext

/-! ## Headers in memory -/

section Spec

variable {k : ℕ} {h : Heap Block} {cells rest : Multiset (ℕ × Block)}

/-- **`http_headers_add` in memory.** -/
theorem exists_httpHeadersAdd {q : PlacedHeaders} (hh : Holds k h (q.cells + rest))
    (key value : Bytes) :
    ∃ (q' : PlacedHeaders) (h' : Heap Block),
      httpHeadersAdd q.record key value h = .ok q'.record h' ∧
      q'.value = Unalix.httpHeadersAdd q.value key value ∧ Holds k h' (q'.cells + rest) := by
  obtain ⟨a, h₁, hkey, hh⟩ := exists_allocString hh key
  obtain ⟨b, h₂, hvalue, hh⟩ := exists_allocString hh value
  let t : PlacedPair := ⟨some (a, .exact key), some (b, .exact value)⟩
  have hcells : (b, Block.string (.exact value)) ::ₘ (a, Block.string (.exact key)) ::ₘ
      (q.cells + rest) = q.cells + (t.cells + rest) := by
    rw [Multiset.cons_swap, PlacedPair.cells, PlacedText.cells_some, PlacedText.cells_some,
      add_left_comm, add_assoc, Multiset.singleton_add, Multiset.singleton_add]
  rw [hcells] at hh
  obtain ⟨q', c, h', happend, harray, hitems, hh⟩ := exists_appendPair hh
  have hsize : (sizeofHTTPHeader * q.items.length + sizeofHTTPHeader * 1) / sizeofHTTPHeader =
      q.items.length + 1 := by
    rw [← Nat.mul_add, Nat.mul_div_cancel_left _ (by decide)]
  have hstored : sizeofHTTPHeader * (q.items ++ [t]).length =
      sizeofHTTPHeader * q.items.length + sizeofHTTPHeader * 1 := by
    rw [List.length_append, List.length_singleton, Nat.mul_add]
  have hcomplete : ∀ t ∈ q'.items, t.Complete := by
    rw [hitems, List.forall_mem_append, List.forall_mem_singleton]
    exact ⟨q.complete, rfl, rfl⟩
  have hnonempty : q'.items = [] → q'.array = none := by simp [hitems]
  refine ⟨{ q' with slength := (Unalix.httpHeadersAdd q.value key value).slength
                    complete := hcomplete
                    array_of_nil := hnonempty }, h', ?_, ?_, hh⟩
  · refine (run_bind_of_ok hkey _).trans ((run_bind_of_ok hvalue _).trans ?_)
    refine (congrArg (fun n => (appendPair q.array n _ _ >>= _) h₂) hsize).trans ?_
    refine (run_bind_of_ok happend _).trans ?_
    simp only [PlacedHeaders.record, harray, hitems, List.length_append, List.length_singleton]
    rfl
  · simp only [PlacedHeaders.value, hitems, hstored, List.map_append]
    rfl

/-- The texts of one header are freed. -/
theorem exists_freeHeader (a : ℕ) (done : List (Option Pair)) (t : PlacedPair)
    (items : List PlacedPair) (h : Heap Block)
    (hh : Holds k h ((a, .pairs (done ++ PlacedPair.elements (t :: items))) ::ₘ
      (PlacedPair.itemCells (t :: items) + rest))) :
    ∃ x h', freeHeader (some a) done.length h = .ok ⟨⟩ h' ∧
      Holds k h' ((a, .pairs (done ++ x :: PlacedPair.elements items)) ::ₘ
        (PlacedPair.itemCells items + rest)) := by
  have hget := Holds.getAt (K := pairArray) hh invalid
  rw [PlacedPair.itemCells_cons, PlacedPair.cells, add_assoc, add_assoc, ← Multiset.add_cons] at hh
  obtain ⟨h₁, hkey, hh⟩ := exists_freePointer hh
  obtain ⟨h₂, hset, hh⟩ := Holds.setAt (K := pairArray) hh invalid { t.record with key := none }
  rw [← Multiset.add_cons] at hh
  obtain ⟨h₃, hvalue, hh⟩ := exists_freePointer hh
  obtain ⟨h', hset', hh⟩ := Holds.setAt (K := pairArray) hh invalid {}
  refine ⟨_, h', ?_, hh⟩
  refine (run_bind_of_ok hget _).trans ((run_bind_of_ok hkey _).trans ?_)
  exact (run_bind_of_ok hset _).trans ((run_bind_of_ok hvalue _).trans hset')

/-- **`http_headers_free` in memory.** A struct without headers has no array. -/
theorem exists_httpHeadersFree {q : PlacedHeaders} (hh : Holds k h (q.cells + rest)) :
    ∃ (q' : PlacedHeaders) (h' : Heap Block), httpHeadersFree q.record h = .ok q'.record h' ∧
      q'.value = Unalix.httpHeadersFree q.value ∧ q'.cells = 0 ∧ Holds k h' rest := by
  refine ⟨{ slength := q.slength }, ?_⟩
  by_cases hitems : q.items = []
  · have hsize : q.record.size < 1 := by simp [PlacedHeaders.record, hitems]
    have hcells : q.cells = 0 := by
      rw [PlacedPairs.cells, hitems, q.array_of_nil hitems]
      rfl
    rw [hcells, zero_add] at hh
    refine ⟨h, ?_, rfl, rfl, hh⟩
    rw [httpHeadersFree, if_pos hsize]
    simp only [PlacedHeaders.record, hitems, q.array_of_nil hitems]
    rfl
  · have hsize : ¬ q.record.size < 1 := by
      have hlength := List.length_pos_iff.2 hitems
      simp only [PlacedHeaders.record, sizeofHTTPHeader]
      omega
    obtain ⟨h', hfree, hh'⟩ := exists_freePairs exists_freeHeader hh
    refine ⟨h', ?_, rfl, rfl, hh'⟩
    rw [httpHeadersFree, if_neg hsize, ← bind_assoc]
    exact run_bind_of_ok hfree _

theorem readHeader_eq {q : PlacedHeaders} (hh : Holds k h cells) (hq : q.cells ≤ cells)
    {w z : List PlacedPair} {t : PlacedPair} (hitems : q.items = w ++ t :: z) :
    readHeader q.array w.length h = .ok t.header h := by
  have hget := getPair_eq hh hq hitems
  have ht : t ∈ q.items := by simp [hitems]
  have hle : t.cells ≤ cells := (PlacedPair.le_itemCells ht).trans
    ((Multiset.le_add_left _ _).trans hq)
  obtain ⟨key, value⟩ := t
  obtain ⟨hkey, hvalue⟩ := q.complete _ ht
  obtain ⟨key, rfl⟩ := Option.isSome_iff_exists.1 hkey
  obtain ⟨value, rfl⟩ := Option.isSome_iff_exists.1 hvalue
  have hkey := readString_of_mem hh (Multiset.singleton_le.1 ((PlacedPair.key_le _).trans hle))
  have hvalue := readString_of_mem hh (Multiset.singleton_le.1 ((PlacedPair.value_le _).trans hle))
  refine (run_bind_of_ok hget _).trans ?_
  exact (run_bind_of_ok hkey _).trans (run_bind_of_ok hvalue _)

/-- The pointers of the headers lead to their texts. -/
theorem readHeaders_eq {q : PlacedHeaders} (hh : Holds k h cells) (hq : q.cells ≤ cells) :
    readHeaders q.record h = .ok q.value h := by
  have hloop : mapRange (readHeader q.array) q.items.length 0 h =
      .ok (q.items.map PlacedPair.header) h :=
    mapRange_eq [] q.items fun w t z hitems => readHeader_eq hh hq hitems
  exact run_bind_of_ok hloop _

/-! ## Contexts in memory -/

/-- **`http_body_free` in memory.** A body without bytes has no content. -/
theorem exists_httpBodyFree {b : PlacedBody} (hh : Holds k h (b.cells + rest)) :
    ∃ h', httpBodyFree b.record h = .ok {} h' ∧ Holds k h' rest := by
  obtain ⟨content, hnonempty⟩ := b
  cases content with
  | none => exact ⟨h, rfl, by rwa [PlacedBody.cells, Option.elim_none, zero_add] at hh⟩
  | some t =>
    have hsize : ¬ (PlacedBody.record ⟨some t, hnonempty⟩).size < 1 := by
      have hlength := List.length_pos_iff.2 (hnonempty t rfl)
      change ¬ t.2.length < 1
      omega
    rw [PlacedBody.cells, Option.elim_some, Multiset.singleton_add] at hh
    obtain ⟨h', hfree, hh'⟩ := hh.free invalid
    refine ⟨h', ?_, hh'⟩
    rw [httpBodyFree, if_neg hsize]
    exact run_bind_of_ok hfree _

theorem readBody_eq {b : PlacedBody} (hh : Holds k h cells) (hb : b.cells ≤ cells) :
    readBody b.record h = .ok b.value h := by
  obtain ⟨content, hnonempty⟩ := b
  cases content with
  | none => rfl
  | some t =>
    obtain ⟨others, rfl⟩ := Multiset.exists_cons_of_mem (Multiset.singleton_le.1 hb)
    exact run_bind_of_ok (hh.read invalid) _

/-- **`http_request_free` in memory.** -/
theorem exists_httpRequestFree {r : PlacedRequest} (hh : Holds k h (r.cells + rest)) :
    ∃ (r' : PlacedRequest) (h' : Heap Block), httpRequestFree r.record h = .ok r'.record h' ∧
      r'.value = Unalix.httpRequestFree r.value ∧ r'.cells = 0 ∧ Holds k h' rest := by
  rw [PlacedRequest.cells, add_assoc, add_assoc] at hh
  obtain ⟨headers, h₁, hheaders, hvalue, hcells, hh⟩ := exists_httpHeadersFree hh
  obtain ⟨h₂, hbody, hh⟩ := exists_httpBodyFree hh
  obtain ⟨h', huri, hh⟩ := exists_uriFree hh
  refine ⟨{ headers := headers }, h', ?_, ?_, ?_, hh⟩
  · exact (run_bind_of_ok hheaders _).trans ((run_bind_of_ok hbody _).trans (run_bind_of_ok huri _))
  · simp only [PlacedRequest.value, hvalue]
    rfl
  · rw [PlacedRequest.cells, hcells]
    rfl

/-- **`http_response_free` in memory.** -/
theorem exists_httpResponseFree {r : PlacedResponse} (hh : Holds k h (r.cells + rest)) :
    ∃ (r' : PlacedResponse) (h' : Heap Block), httpResponseFree r.record h = .ok r'.record h' ∧
      r'.value = Unalix.httpResponseFree r.value ∧ r'.cells = 0 ∧ Holds k h' rest := by
  rw [PlacedResponse.cells, add_assoc] at hh
  obtain ⟨headers, h₁, hheaders, hvalue, hcells, hh⟩ := exists_httpHeadersFree hh
  obtain ⟨h', hbody, hh⟩ := exists_httpBodyFree hh
  refine ⟨{ headers := headers }, h', ?_, ?_, ?_, hh⟩
  · exact (run_bind_of_ok hheaders _).trans (run_bind_of_ok hbody _)
  · simp only [PlacedResponse.value, hvalue]
    rfl
  · rw [PlacedResponse.cells, hcells]
    rfl

/-- **`http_context_free` in memory** frees what the context owns; a context that was freed owns
nothing. -/
theorem exists_httpContextFree {p : PlacedContext} (hh : Holds k h (p.cells + rest)) :
    ∃ (p' : PlacedContext) (h' : Heap Block), httpContextFree p.record h = .ok p'.record h' ∧
      p'.value = Unalix.httpContextFree p.value ∧ p'.cells = 0 ∧ Holds k h' rest := by
  rw [PlacedContext.cells, add_assoc] at hh
  obtain ⟨request, h₁, hrequest, hvalue, hcells, hh⟩ := exists_httpRequestFree hh
  obtain ⟨response, h', hresponse, hvalue', hcells', hh⟩ := exists_httpResponseFree hh
  refine ⟨⟨request, response, connectionFree p.connection⟩, h', ?_, ?_, ?_, hh⟩
  · exact (run_bind_of_ok hrequest _).trans (run_bind_of_ok hresponse _)
  · simp only [PlacedContext.value, hvalue, hvalue']
    rfl
  · rw [PlacedContext.cells, hcells, hcells', add_zero]

/-- The pointers of a request lead to what it owns. -/
theorem readRequest_eq {r : PlacedRequest} (hh : Holds k h (r.cells + rest)) :
    readRequest r.record h = .ok r.value h := by
  have hheaders := readHeaders_eq (q := r.headers) hh
    ((Multiset.le_add_right _ _).trans (Multiset.le_add_right _ _))
  have hbody := readBody_eq (b := r.body) hh
    (((Multiset.le_add_right _ _).trans (Multiset.le_add_left _ _)).trans (Multiset.le_add_right _ _))
  have huri : readUri r.uri.record h = .ok r.uri.value h := by
    rw [PlacedRequest.cells, add_comm r.body.cells, add_left_comm, add_assoc] at hh
    exact readUri_eq hh
  exact (run_bind_of_ok hheaders _).trans ((run_bind_of_ok hbody _).trans (run_bind_of_ok huri _))

/-- The pointers of a response lead to what it owns. -/
theorem readResponse_eq {r : PlacedResponse} (hh : Holds k h cells) (hr : r.cells ≤ cells) :
    readResponse r.record h = .ok r.value h := by
  have hheaders := readHeaders_eq (q := r.headers) hh ((Multiset.le_add_right _ _).trans hr)
  have hbody := readBody_eq (b := r.body) hh ((Multiset.le_add_left _ _).trans hr)
  exact (run_bind_of_ok hheaders _).trans (run_bind_of_ok hbody _)

end Spec

end Unalix.OnHeap
