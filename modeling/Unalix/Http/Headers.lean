import Unalix.Uri.Parse

/-!
# HTTP headers (`http.c`)

A header is a key and a value; `struct HTTPHeaders` keeps them in the order of addition, with the
length of the text they are printed as. Keys and values that the parsers let through consist of
the safe symbols, none of which is CR or LF.
-/

namespace Unalix

open CString Ascii

def cr : UInt8 := 13

def lf : UInt8 := 10

def crlf : Bytes := [cr, lf]

def crlfcrlf : Bytes := [cr, lf, cr, lf]

def headerSeparator : Bytes := [colon, space]

def headerNameSafeSymbols : Bytes := str "-_"

def headerValueSafeSymbols : Bytes := str "_ :;.,\\/\"'?!()\x7b\x7d[]@<>=-+*#$&`|~^%"

/-- `header_name_safe`. -/
def headerNameSafe (s : Bytes) : Bool := s.all fun ch => isalnum ch || ch ∈ headerNameSafeSymbols

/-- `header_value_safe`. -/
def headerValueSafe (s : Bytes) : Bool :=
  s.all fun ch => isalnum ch || ch ∈ headerValueSafeSymbols

/-- `struct HTTPHeader`. -/
structure HTTPHeader where
  key : Bytes
  value : Bytes
  deriving DecidableEq, Repr

/-- `sizeof(struct HTTPHeader)`, two pointers. -/
def sizeofHTTPHeader : ℕ := 16

/-- `struct HTTPHeaders`; `offset` is the length of `items`. -/
structure HTTPHeaders where
  size : ℕ := 0
  items : List HTTPHeader := []
  slength : ℕ := 0
  deriving DecidableEq, Repr

namespace HTTPHeaders

def offset (obj : HTTPHeaders) : ℕ := obj.items.length

end HTTPHeaders

/-- `http_headers_add`, when memory can be allocated. -/
def httpHeadersAdd (obj : HTTPHeaders) (key value : Bytes) : HTTPHeaders where
  size := obj.size + sizeofHTTPHeader * 1
  items := obj.items ++ [⟨key, value⟩]
  slength := (if 0 < obj.slength then obj.slength + crlf.length else obj.slength) + key.length +
    ([colon].length + [space].length) + value.length

/-- `http_headers_get`: the first header with this key. -/
def httpHeadersGet (obj : HTTPHeaders) (key : Bytes) : Option HTTPHeader :=
  obj.items.find? fun header => header.key = key

/-- `http_headers_stringify`: the headers are appended to `dst`. -/
def httpHeadersStringify : List HTTPHeader → Bytes → Bytes
  | [], dst => dst
  | header :: headers, dst =>
    httpHeadersStringify headers (dst ++ (if dst ≠ [] then crlf else []) ++ header.key ++ [colon] ++
      [space] ++ header.value)

/-! ## The printed headers -/

/-- The line of a header. -/
def headerLine (header : HTTPHeader) : Bytes := header.key ++ headerSeparator ++ header.value

theorem headerLine_ne_nil (header : HTTPHeader) : headerLine header ≠ [] := by
  simp [headerLine, headerSeparator]

theorem httpHeadersStringify_append {headers : List HTTPHeader} {dst : Bytes} (h : dst ≠ []) :
    httpHeadersStringify headers dst = crlf.intercalate (dst :: headers.map headerLine) := by
  induction headers generalizing dst with
  | nil => rw [List.map_nil, List.intercalate_singleton, httpHeadersStringify]
  | cons header headers ih =>
    have hne : dst ++ crlf ++ header.key ++ [colon] ++ [space] ++ header.value ≠ [] := by simp [h]
    rw [httpHeadersStringify, if_pos h, ih hne, List.map_cons]
    have hline : dst ++ crlf ++ header.key ++ [colon] ++ [space] ++ header.value =
        dst ++ crlf ++ headerLine header := by
      simp [headerLine, headerSeparator]
    rw [hline, intercalate_append_cons]

/-- **The printed headers are their lines**, between CR LF. -/
theorem httpHeadersStringify_eq (headers : List HTTPHeader) :
    httpHeadersStringify headers [] = crlf.intercalate (headers.map headerLine) := by
  cases headers with
  | nil => rfl
  | cons header headers =>
    have hne := headerLine_ne_nil header
    rw [httpHeadersStringify, List.map_cons, ← httpHeadersStringify_append hne]
    simp [headerLine, headerSeparator]

/-- One header more is one line more. -/
theorem httpHeadersStringify_concat (headers : List HTTPHeader) (header : HTTPHeader) (dst : Bytes) :
    httpHeadersStringify (headers ++ [header]) dst = httpHeadersStringify headers dst ++
      (if httpHeadersStringify headers dst ≠ [] then crlf else []) ++ headerLine header := by
  induction headers generalizing dst with
  | nil =>
    simp only [List.nil_append, httpHeadersStringify, headerLine, headerSeparator,
      List.append_assoc, List.cons_append]
    rfl
  | cons head headers ih => exact ih _

/-! ## The length of the printed headers -/

/-- The length that is kept beside the headers is the length of what is printed. -/
def ExactLength (obj : HTTPHeaders) : Prop :=
  obj.slength = (httpHeadersStringify obj.items []).length

/-- **Adding a header keeps the length exact**: the separator is counted when the length is
positive, and printed when the text before it is not empty. -/
theorem ExactLength.httpHeadersAdd {obj : HTTPHeaders} (h : ExactLength obj) (key value : Bytes) :
    ExactLength (httpHeadersAdd obj key value) := by
  rw [ExactLength] at h
  have hpos : 0 < obj.slength ↔ httpHeadersStringify obj.items [] ≠ [] := by
    rw [h, List.length_pos_iff]
  simp only [ExactLength, Unalix.httpHeadersAdd, httpHeadersStringify_concat, hpos,
    List.length_append]
  split_ifs
  · simp only [headerLine, headerSeparator, List.length_append, List.length_cons, List.length_nil,
      h]
    omega
  · simp only [headerLine, headerSeparator, List.length_append, List.length_cons, List.length_nil,
      h]
    omega

/-- Adding headers one by one. -/
def addHeaders (obj : HTTPHeaders) (headers : List HTTPHeader) : HTTPHeaders :=
  headers.foldl (fun obj header => httpHeadersAdd obj header.key header.value) obj

@[simp] theorem items_httpHeadersAdd (obj : HTTPHeaders) (key value : Bytes) :
    (httpHeadersAdd obj key value).items = obj.items ++ [⟨key, value⟩] := rfl

@[simp] theorem items_addHeaders (obj : HTTPHeaders) (headers : List HTTPHeader) :
    (addHeaders obj headers).items = obj.items ++ headers := by
  induction headers generalizing obj with
  | nil => simp [addHeaders]
  | cons header headers ih =>
    rw [addHeaders, List.foldl_cons, ← addHeaders, ih, items_httpHeadersAdd, List.append_assoc,
      List.singleton_append]

/-! ## Safe headers -/

/-- A header that `header_name_safe` and `header_value_safe` accept. -/
structure SafeHeader (header : HTTPHeader) : Prop where
  name : headerNameSafe header.key = true
  value : headerValueSafe header.value = true

theorem headerNameSafe_iff {s : Bytes} : headerNameSafe s = true ↔
    ∀ c ∈ s, isalnum c = true ∨ c ∈ headerNameSafeSymbols := by
  simp [headerNameSafe]

theorem headerValueSafe_iff {s : Bytes} : headerValueSafe s = true ↔
    ∀ c ∈ s, isalnum c = true ∨ c ∈ headerValueSafeSymbols := by
  simp [headerValueSafe]

theorem headerNameSafe.cr_not_mem {s : Bytes} (h : headerNameSafe s = true) : cr ∉ s := fun hc =>
  absurd (headerNameSafe_iff.1 h cr hc) (by decide)

theorem headerValueSafe.cr_not_mem {s : Bytes} (h : headerValueSafe s = true) : cr ∉ s := fun hc =>
  absurd (headerValueSafe_iff.1 h cr hc) (by decide)

/-- The line of a safe header is one line. -/
theorem SafeHeader.cr_not_mem {header : HTTPHeader} (h : SafeHeader header) :
    cr ∉ headerLine header := by
  have hname := headerNameSafe.cr_not_mem h.name
  have hvalue := headerValueSafe.cr_not_mem h.value
  simp [headerLine, headerSeparator, hname, hvalue, show cr ≠ colon by decide,
    show cr ≠ space by decide]

end Unalix
