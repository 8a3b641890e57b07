import Unalix.Http.Exchange

/-!
# The bookkeeping of headers (`http.c`)

`struct HTTPHeaders` keeps three numbers beside its array: how many headers there are, how many
bytes the array has, and how long the text is that the headers are printed as.
`http_headers_free` resets the first two. So along any sequence of calls these two agree with the
headers that are stored (`run_stored`), and the third does as long as nothing was released while
there were headers (`headers_bookkept_iff`): the length that is left over is counted again by every
later addition.
-/

namespace Unalix

/-! ## The struct -/

/-- `struct HTTPHeaders` in memory: `items` is the array, of which the first `offset` headers are
in use. -/
structure HeadersStruct where
  offset : ℕ := 0
  size : ℕ := 0
  items : List HTTPHeader := []
  slength : ℕ := 0
  deriving DecidableEq, Repr

namespace HeadersStruct

/-- `realloc`: as many headers as fit `size` bytes; the new ones hold nothing yet. -/
def realloc (items : List HTTPHeader) (size : ℕ) : List HTTPHeader :=
  let count := size / sizeofHTTPHeader
  items.take count ++ List.replicate (count - items.length) ⟨[], []⟩

/-- `http_headers_add`, when memory can be allocated. -/
def add (obj : HeadersStruct) (key value : Bytes) : HeadersStruct :=
  let size := obj.size + sizeofHTTPHeader * 1
  { offset := obj.offset + 1
    size := size
    items := (realloc obj.items size).set obj.offset ⟨key, value⟩
    slength := (if 0 < obj.slength then obj.slength + crlf.length else obj.slength) + key.length +
      ([colon].length + [space].length) + value.length }

/-- `http_headers_free`: an array of no bytes is left as it is. -/
def free (obj : HeadersStruct) : HeadersStruct :=
  if obj.size < 1 then obj else { obj with items := [], size := 0, offset := 0 }

/-- The headers in use. -/
def used (obj : HeadersStruct) : List HTTPHeader := obj.items.take obj.offset

/-- `http_headers_stringify` into an empty array. -/
def stringify (obj : HeadersStruct) : Bytes := httpHeadersStringify obj.used []

/-- The struct without its array: what the rest of the program sees of it. -/
def toHeaders (obj : HeadersStruct) : HTTPHeaders := ⟨obj.size, obj.used, obj.slength⟩

/-- The array has one place for each header. -/
structure Valid (obj : HeadersStruct) : Prop where
  size : obj.size = obj.offset * sizeofHTTPHeader
  items : obj.items.length = obj.offset

theorem valid_zero : ({} : HeadersStruct).Valid := ⟨rfl, rfl⟩

/-- In a valid struct one place is added behind the headers that are there. -/
theorem Valid.items_add {obj : HeadersStruct} (h : obj.Valid) (key value : Bytes) :
    (obj.add key value).items = obj.items ++ [⟨key, value⟩] := by
  have hcount : (obj.size + sizeofHTTPHeader * 1) / sizeofHTTPHeader = obj.items.length + 1 := by
    rw [h.size, h.items, sizeofHTTPHeader]
    omega
  simp only [add, realloc, hcount, Nat.add_sub_cancel_left, List.replicate_one, ← h.items]
  rw [List.take_of_length_le (Nat.le_succ _), List.set_append_right _ _ le_rfl, Nat.sub_self,
    List.set_cons_zero]

theorem Valid.add {obj : HeadersStruct} (h : obj.Valid) (key value : Bytes) :
    (obj.add key value).Valid := by
  refine ⟨?_, ?_⟩
  · have hsize : (obj.add key value).size = obj.size + sizeofHTTPHeader * 1 := rfl
    have hoffset : (obj.add key value).offset = obj.offset + 1 := rfl
    rw [hsize, hoffset, h.size]
    ring
  · rw [h.items_add, List.length_append, h.items]
    rfl

theorem Valid.free {obj : HeadersStruct} (h : obj.Valid) : obj.free.Valid := by
  unfold HeadersStruct.free
  split_ifs
  · exact h
  · exact ⟨rfl, rfl⟩

theorem Valid.used_eq {obj : HeadersStruct} (h : obj.Valid) : obj.used = obj.items :=
  List.take_of_length_le h.items.le

/-- **Adding a header** to the struct. -/
theorem Valid.toHeaders_add {obj : HeadersStruct} (h : obj.Valid) (key value : Bytes) :
    (obj.add key value).toHeaders = httpHeadersAdd obj.toHeaders key value := by
  rw [toHeaders, (h.add key value).used_eq, h.items_add, ← h.used_eq]
  rfl

/-- **Releasing the headers** of the struct. -/
theorem Valid.toHeaders_free {obj : HeadersStruct} (h : obj.Valid) :
    obj.free.toHeaders = httpHeadersFree obj.toHeaders := by
  unfold HeadersStruct.free
  split_ifs with hsize
  · have hzero : obj.size = 0 := by omega
    have hoffset : obj.offset = 0 := by
      have := h.size
      rw [sizeofHTTPHeader] at this
      omega
    simp [toHeaders, httpHeadersFree, used, hzero, hoffset]
  · rfl

end HeadersStruct

/-! ## Sequences of calls -/

/-- A call that changes the headers. -/
inductive HeadersCall
  | add (key value : Bytes)
  | free
  deriving DecidableEq, Repr

/-- What a call does to the struct. -/
def HeadersCall.step (obj : HeadersStruct) : HeadersCall → HeadersStruct
  | add key value => obj.add key value
  | free => obj.free

/-- What a call does to the headers that are stored. -/
def HeadersCall.store (stored : List HTTPHeader) : HeadersCall → List HTTPHeader
  | add key value => stored ++ [⟨key, value⟩]
  | free => []

/-- The struct after a sequence of calls on a zeroed one. -/
def headersAfter (calls : List HeadersCall) : HeadersStruct := calls.foldl HeadersCall.step {}

/-- The headers that are stored after a sequence of calls. -/
def storedAfter (calls : List HeadersCall) : List HTTPHeader := calls.foldl HeadersCall.store []

/-- The numbers beside the array are those of the headers stored. -/
structure Bookkept (obj : HeadersStruct) (stored : List HTTPHeader) : Prop where
  used : obj.used = stored
  offset : obj.offset = stored.length
  size : obj.size = obj.offset * sizeofHTTPHeader
  slength : obj.slength = obj.stringify.length

theorem headersAfter_concat (calls : List HeadersCall) (call : HeadersCall) :
    headersAfter (calls ++ [call]) = call.step (headersAfter calls) := by
  simp [headersAfter]

theorem storedAfter_concat (calls : List HeadersCall) (call : HeadersCall) :
    storedAfter (calls ++ [call]) = call.store (storedAfter calls) := by
  simp [storedAfter]

/-- One call keeps the struct valid, and stores what it should. -/
theorem step_stored {obj : HeadersStruct} {stored : List HTTPHeader} (h : obj.Valid)
    (hused : obj.used = stored) (call : HeadersCall) :
    (call.step obj).Valid ∧ (call.step obj).used = call.store stored := by
  cases call with
  | add key value =>
    refine ⟨h.add key value, ?_⟩
    change (obj.add key value).toHeaders.items = _
    rw [h.toHeaders_add, ← hused]
    rfl
  | free =>
    refine ⟨h.free, ?_⟩
    change obj.free.toHeaders.items = _
    rw [h.toHeaders_free]
    rfl

/-- **Along every sequence of calls** the array holds the headers that are stored. -/
theorem run_stored (calls : List HeadersCall) :
    (headersAfter calls).Valid ∧ (headersAfter calls).used = storedAfter calls := by
  induction calls using List.reverseRecOn with
  | nil => exact ⟨HeadersStruct.valid_zero, rfl⟩
  | append_singleton calls call ih =>
    rw [headersAfter_concat, storedAfter_concat]
    exact step_stored ih.1 ih.2 call

/-- What is left to check is the length. -/
theorem bookkept_iff (calls : List HeadersCall) :
    Bookkept (headersAfter calls) (storedAfter calls) ↔
      ExactLength (headersAfter calls).toHeaders := by
  obtain ⟨hvalid, hused⟩ := run_stored calls
  refine ⟨Bookkept.slength, fun h => ⟨hused, ?_, hvalid.size, h⟩⟩
  rw [← hused, hvalid.used_eq, hvalid.items]

/-- Stored headers are printed as some text. -/
theorem stringify_ne_nil {headers : List HTTPHeader} (h : headers ≠ []) :
    httpHeadersStringify headers [] ≠ [] := by
  obtain ⟨headers, header, rfl⟩ := headers.eq_nil_or_concat'.resolve_left h
  rw [httpHeadersStringify_concat]
  simp [headerLine_ne_nil]

/-- Releasing leaves the length, which is that of the empty text only if there was nothing. -/
theorem HeadersStruct.Valid.exactLength_free_iff {obj : HeadersStruct} (h : obj.Valid)
    (hexact : ExactLength obj.toHeaders) : ExactLength obj.free.toHeaders ↔ obj.used = [] := by
  have hlength : obj.slength = (httpHeadersStringify obj.used []).length := hexact
  rw [h.toHeaders_free]
  change obj.slength = 0 ↔ _
  rw [hlength, List.length_eq_zero_iff]
  constructor
  · intro hnil
    by_contra hne
    exact stringify_ne_nil hne hnil
  · intro hnil
    rw [hnil]
    rfl

/-- **The bookkeeping of headers**: the numbers are right after every call of a sequence if and only
if nothing in it is released while there are headers. -/
theorem headers_bookkept_iff (calls : List HeadersCall) :
    (∀ done, done <+: calls → Bookkept (headersAfter done) (storedAfter done)) ↔
      ∀ done rest, calls = done ++ .free :: rest → storedAfter done = [] := by
  constructor
  · rintro h done rest rfl
    have hprefix : done ++ [.free] <+: done ++ .free :: rest := ⟨rest, by simp⟩
    have hexact := (bookkept_iff done).1 (h done (List.prefix_append _ _))
    have hfree := (bookkept_iff _).1 (h _ hprefix)
    obtain ⟨hvalid, hused⟩ := run_stored done
    rw [headersAfter_concat] at hfree
    rw [← hused]
    exact (hvalid.exactLength_free_iff hexact).1 hfree
  · intro h done hdone
    rw [bookkept_iff]
    induction done using List.reverseRecOn with
    | nil => rfl
    | append_singleton done call ih =>
      have hexact := ih ((List.prefix_append done [call]).trans hdone)
      obtain ⟨hvalid, hused⟩ := run_stored done
      rw [headersAfter_concat]
      cases call with
      | add key value =>
        rw [HeadersCall.step, hvalid.toHeaders_add]
        exact hexact.httpHeadersAdd key value
      | free =>
        obtain ⟨rest, hrest⟩ := hdone
        have hnil : storedAfter done = [] := h done rest (by rw [← hrest]; simp)
        exact (hvalid.exactLength_free_iff hexact).2 (hused.trans hnil)

/-- The order of `ruleset_update`: the headers of one request, their release, the headers of the
next one. The length of the first request is counted a second time. -/
theorem not_bookkept_released : ¬ ∀ done,
    done <+: [.add (str "Host") (str "a.org"), .free, .add (str "Host") (str "a.org")] →
      Bookkept (headersAfter done) (storedAfter done) := by
  intro h
  have hfree := h [.add (str "Host") (str "a.org"), .free] (by decide)
  exact absurd hfree.slength (by decide)

end Unalix
