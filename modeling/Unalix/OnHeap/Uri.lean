import Unalix.Foundations.Heap
import Unalix.Foundations.Simulation
import Unalix.Http.Exchange
import Unalix.Uri.Allocation
import Unalix.Uri.Sizes

/-!
# A URI in memory (`uri.c`)

Each text of a `struct URI` is a block of its own, allocated when the parser reaches it, so that
what is allocated at an error depends on where it is found. The functions here have the names of
those of `Uri/Parse`, which calculate with the texts that the pointers lead to. `uri_free` frees the
texts of any URI, and nothing else (`exists_uriFree`).

A block has the size that `malloc` was asked for, and a text in it leaves room for its terminator
(`Text`): a text that does not fit is not written, and the call ends with an error.
-/

namespace Unalix.OnHeap

open Calls Heaps CString Ascii

/-! ## Records -/

/-- `struct URI`. -/
structure URI where
  isIpv6 : ℤ := 0
  hasAuthentication : ℤ := 0
  username : Option ℕ := none
  password : Option ℕ := none
  scheme : Option ℕ := none
  hostname : Option ℕ := none
  port : ℤ := 0
  path : Option ℕ := none
  query : Option ℕ := none
  fragment : Option ℕ := none
  deriving DecidableEq, Repr

/-- `struct Parameter` and `struct HTTPHeader`. -/
structure Pair where
  key : Option ℕ := none
  value : Option ℕ := none
  deriving DecidableEq, Repr

/-- A string in a block of `size` bytes, the last of which at most is its terminator. -/
structure Text where
  size : ℕ
  content : Bytes
  fits : content.length < size

/-- A string in a block that ends with its terminator. -/
def Text.exact (s : Bytes) : Text where
  size := s.length + 1
  content := s
  fits := Nat.lt_succ_self _

/-- What a block holds: a string, as many bytes as were asked for, an array of parameters or headers
whose last elements were not written yet, or the data of a match. -/
inductive Block
  | string (t : Text)
  | bytes (content : Bytes)
  | pairs (items : List (Option Pair))
  | matchData

abbrev HeapCall (α : Type) := EStateM Failure (Heap Block) α

/-! ## Accesses -/

/-- An access to what is not allocated, or was not written, or lies outside. -/
def invalid : Failure := .fault .outOfBounds

/-- The string in the block at `a`. -/
def readString (a : ℕ) : HeapCall Bytes := do
  match ← read invalid a with
  | .string t => return t.content
  | _ => throw invalid

/-- `malloc` for `size` bytes, to which a string is copied. -/
def mallocString (size : ℕ) (s : Bytes) : HeapCall ℕ :=
  if h : s.length < size then alloc (.string ⟨size, s, h⟩) else throw invalid

/-- `malloc` for a string and its terminator, and the string copied. -/
def allocString (s : Bytes) : HeapCall ℕ := mallocString (s.length + 1) s

/-- A string is written over the one at `a`. -/
def writeString (a : ℕ) (s : Bytes) : HeapCall Unit := do
  match ← read invalid a with
  | .string t =>
    if h : s.length < t.size then write invalid a (.string ⟨t.size, s, h⟩) else throw invalid
  | _ => throw invalid

/-- The text at a pointer that may be null. -/
def readText (pointer : Option ℕ) : HeapCall (Option Bytes) :=
  match pointer with
  | none => pure none
  | some a => do
    let s ← readString a
    return some s

/-- A text is copied into fresh memory, if there is one. -/
def allocText (s : Option Bytes) : HeapCall (Option ℕ) :=
  match s with
  | none => pure none
  | some s => do
    let a ← allocString s
    return some a

/-- `free`, unless the pointer is null. -/
def freePointer (pointer : Option ℕ) : HeapCall Unit :=
  match pointer with
  | none => pure ()
  | some a => free invalid a

/-! ## Structs that are filled in -/

/-- The heap, and the struct that a function fills in. -/
structure Filling (O : Type) where
  heap : Heap Block
  obj : O

section Filling

variable {O : Type}

def heapPart : Part (Filling O) (Heap Block) where
  get := Filling.heap
  set m heap := { m with heap := heap }

/-- An assignment to fields of the struct. -/
def assign (f : O → O) : EStateM Failure (Filling O) Unit := modify fun m => { m with obj := f m.obj }

/-- An assignment of fresh memory, if there is any. -/
def assignSome (pointer : Option ℕ) (f : ℕ → O → O) : EStateM Failure (Filling O) Unit :=
  match pointer with
  | none => pure ()
  | some a => assign (f a)

end Filling

/-! ## `parse_uri` -/

abbrev ParseCall (α : Type) := EStateM Failure (Filling URI) α

/-- Scheme: its text is allocated, and then checked and lowered in place. -/
def parseScheme (uri : Bytes) : ParseCall Bytes :=
  match strstr uri schemeSeparator with
  | none => throw (.code .uriSchemeMissing)
  | some schemeEnd => do
    let schemeSize := uri.length - schemeEnd.length
    if schemeSize < 1 then throw (.code .uriSchemeEmpty)
    else
      let a ← heapPart.run (allocString (uri.take schemeSize))
      assign fun obj => { obj with scheme := some a }
      let scheme ← ofOutcome (checkScheme 0 (uri.take schemeSize))
      heapPart.run (writeString a scheme)
      return schemeEnd.drop schemeSeparator.length

/-- A credential that is not empty marks the URI as authenticated. -/
def setAuthentication (obj : URI) : URI :=
  { obj with hasAuthentication := if obj.hasAuthentication = 0 then 1 else obj.hasAuthentication }

/-- The bytes between two pointers are copied into fresh memory, when there are any. -/
def copyRange (start stop : Bytes) : ParseCall (Option ℕ) := do
  let s ← ofOutcome (Unalix.copyRange start stop)
  heapPart.run (allocText s)

/-- User information. -/
def parseUserinfo (authenticationStart : Bytes) : ParseCall Bytes :=
  match strstr authenticationStart [atSign] with
  | none => pure authenticationStart
  | some authenticationEnd => do
    let separator := findSeparator authenticationStart authenticationEnd
    let username ← copyRange authenticationStart separator
    assignSome username fun a obj => setAuthentication { obj with username := some a }
    let separator := if separator ≠ authenticationEnd then separator.drop 1 else separator
    let password ← copyRange separator authenticationEnd
    assignSome password fun a obj => setAuthentication { obj with password := some a }
    return authenticationEnd.drop 1

/-- The number of a port that is not empty is stored before its bounds are checked. -/
def parsePortNumber (value : Bytes) : ParseCall Unit :=
  if !isnumeric value then throw (.code .uriPortContainsInvalidCharacter)
  else do
    assign fun obj => { obj with port := atoi value }
    if atoi value < minPortNumber then throw (.code .uriPortOutOfRange)
    else if maxPortNumber < atoi value then throw (.code .uriPortOutOfRange)
    else pure ()

/-- Port: where the host ends. -/
def parsePort (isIpv6 : Bool) (hostnameEnd portStart : Option Bytes)
    (pathStart queryStart fragmentStart : Option Bytes) : ParseCall (Option Bytes) :=
  match portStart with
  | none => pure hostnameEnd
  | some portStart =>
    let portEnd := findPortEnd pathStart queryStart fragmentStart
    if ptrLt portStart portEnd then do
      let portSize := (portStart.drop 1).length - (text portEnd).length
      let value := (portStart.drop 1).take portSize
      (if 0 < portSize then parsePortNumber value else pure ())
      return if isIpv6 then hostnameEnd else some portStart
    else pure hostnameEnd

/-- Host: its text is allocated, and then checked, and lowered in place. -/
def setHostname (isIpv6 : Bool) (hostnameStart hostnameEnd : Bytes) : ParseCall Unit := do
  let hostnameSize := sizeBetween hostnameStart hostnameEnd
  ofOutcome (checkHostnameSize isIpv6 hostnameSize)
  let hostname := hostnameStart.take hostnameSize.toNat
  let a ← heapPart.run (allocString hostname)
  assign fun obj => { obj with hostname := some a }
  if isIpv6 then
    if !isipv6 hostname then throw (.code .uriIpv6AddressInvalid)
    else assign fun obj => { obj with isIpv6 := 1 }
  else
    let hostname ← ofOutcome (checkLabels 0 0 hostname)
    heapPart.run (writeString a hostname)
    assign fun obj => { obj with isIpv6 := 0 }

/-- Host and port. -/
def parseHost (hostnameStart : Bytes) (pathStart queryStart fragmentStart : Option Bytes) :
    ParseCall Unit := do
  let isIpv6 : Bool := hostnameStart.head? = some bracketStart
  let (hostnameStart, hostnameEnd, portStart) ← ofOutcome (hostPointers hostnameStart)
  let hostnameEnd ← parsePort isIpv6 hostnameEnd portStart pathStart queryStart fragmentStart
  setHostname isIpv6 hostnameStart (hostEnd hostnameEnd pathStart queryStart fragmentStart)

/-- One of the last three components. -/
def copyComponent (start : Option Bytes) (stop : Bytes) : ParseCall (Option ℕ) :=
  match start with
  | none => pure none
  | some start => copyRange (start.drop 1) stop

/-- Fragment, query and path. -/
def parseComponents (pathStart queryStart fragmentStart : Option Bytes) : ParseCall Unit := do
  let fragment ← copyComponent fragmentStart []
  assignSome fragment fun a obj => { obj with fragment := some a }
  let query ← copyComponent queryStart (text fragmentStart)
  assignSome query fun a obj => { obj with query := some a }
  let path ← copyComponent pathStart (text queryStart)
  assignSome path fun a obj => { obj with path := some a }

/-- `parse_uri`. -/
def parseUri (uri : Bytes) : ParseCall Unit := do
  let authenticationStart ← parseScheme uri
  let hostnameStart ← parseUserinfo authenticationStart
  let pathStart := strstr hostnameStart [slash]
  let queryStart := strstr hostnameStart [questionMark]
  let fragmentStart := strstr hostnameStart [hashtag]
  parseHost hostnameStart pathStart queryStart fragmentStart
  parseComponents pathStart queryStart fragmentStart

/-! ## `uri_free`, `uri_parse`, `uri_stringify` -/

/-- `uri_free`: the struct that is left is zeroed. -/
def uriFree (obj : URI) : HeapCall Unit := do
  freePointer obj.scheme
  freePointer obj.username
  freePointer obj.password
  freePointer obj.hostname
  freePointer obj.path
  freePointer obj.query
  freePointer obj.fragment

/-- `uri_parse`: the struct is freed when the code is not success. -/
def uriParse (obj : URI) (uri : Bytes) : HeapCall URI := fun h =>
  match parseUri uri { heap := h, obj := obj } with
  | .ok () m => .ok m.obj m.heap
  | .error (.code e) m => (uriFree m.obj >>= fun _ => throw (.code e)) m.heap
  | .error (.fault f) m => .error (.fault f) m.heap

/-- The texts that the pointers of a struct lead to. -/
def readUri (obj : URI) : HeapCall Unalix.URI := do
  let scheme ← readText obj.scheme
  let username ← readText obj.username
  let password ← readText obj.password
  let hostname ← readText obj.hostname
  let path ← readText obj.path
  let query ← readText obj.query
  let fragment ← readText obj.fragment
  return { isIpv6 := obj.isIpv6, hasAuthentication := obj.hasAuthentication, port := obj.port,
           scheme, username, password, hostname, path, query, fragment }

/-- `uri_stringify`: the text is written into fresh memory, the size of which is computed before. -/
def uriStringify (obj : URI) : HeapCall ℕ := do
  let obj ← readUri obj
  mallocString (memSize obj + 1) (Unalix.uriStringify obj)

/-! ## Placed values -/

/-- A string with the address of its block, if there is one. -/
abbrev PlacedText := Option (ℕ × Text)

namespace PlacedText

def record (t : PlacedText) : Option ℕ := t.map Prod.fst

def value (t : PlacedText) : Option Bytes := t.map fun t => t.2.content

def cells (t : PlacedText) : Multiset (ℕ × Block) := t.elim 0 fun t => {(t.1, .string t.2)}

@[simp] theorem cells_none : cells none = 0 := rfl

@[simp] theorem cells_some (t : ℕ × Text) : cells (some t) = {(t.1, .string t.2)} := rfl

theorem isNone_record (t : PlacedText) : t.record.isNone = t.value.isNone := by
  cases t <;> rfl

theorem eq_none_of_value {t : PlacedText} (h : t.value = none) : t = none :=
  Option.map_eq_none_iff.1 h

end PlacedText

/-- The pointers of a `struct URI`, in the order in which `uri_free` goes over them. -/
inductive Field
  | scheme | username | password | hostname | path | query | fragment
  deriving DecidableEq

namespace Field

/-- All of them. -/
def all : List Field := [scheme, username, password, hostname, path, query, fragment]

/-- The text that a pointer leads to. -/
def get (field : Field) (v : Unalix.URI) : Option Bytes :=
  match field with
  | scheme => v.scheme
  | username => v.username
  | password => v.password
  | hostname => v.hostname
  | path => v.path
  | query => v.query
  | fragment => v.fragment

end Field

/-- A `struct URI` with its texts. -/
structure PlacedUri where
  isIpv6 : ℤ := 0
  hasAuthentication : ℤ := 0
  port : ℤ := 0
  texts : Field → PlacedText := fun _ => none

namespace PlacedUri

def record (p : PlacedUri) : URI where
  isIpv6 := p.isIpv6
  hasAuthentication := p.hasAuthentication
  username := (p.texts .username).record
  password := (p.texts .password).record
  scheme := (p.texts .scheme).record
  hostname := (p.texts .hostname).record
  port := p.port
  path := (p.texts .path).record
  query := (p.texts .query).record
  fragment := (p.texts .fragment).record

def value (p : PlacedUri) : Unalix.URI where
  isIpv6 := p.isIpv6
  hasAuthentication := p.hasAuthentication
  username := (p.texts .username).value
  password := (p.texts .password).value
  scheme := (p.texts .scheme).value
  hostname := (p.texts .hostname).value
  port := p.port
  path := (p.texts .path).value
  query := (p.texts .query).value
  fragment := (p.texts .fragment).value

def cells (p : PlacedUri) : Multiset (ℕ × Block) :=
  (Field.all.map fun field => (p.texts field).cells).sum

/-- The cells of the other texts. -/
def others (p : PlacedUri) (field : Field) : Multiset (ℕ × Block) :=
  ((Field.all.erase field).map fun field => (p.texts field).cells).sum

/-- A text is put in the place of one of them. -/
def put (p : PlacedUri) (field : Field) (t : PlacedText) : PlacedUri :=
  { p with texts := Function.update p.texts field t }

@[simp] theorem texts_put (p : PlacedUri) (field : Field) (t : PlacedText) :
    (p.put field t).texts field = t := Function.update_self ..

theorem cells_eq (p : PlacedUri) (field : Field) :
    p.cells = (p.texts field).cells + p.others field := by
  have hmem : field ∈ Field.all := by cases field <;> decide
  exact ((List.perm_cons_erase hmem).map _).sum_eq

theorem others_put (p : PlacedUri) (field : Field) (t : PlacedText) :
    (p.put field t).others field = p.others field := by
  have hnodup : Field.all.Nodup := by decide
  refine congrArg List.sum (List.map_congr_left fun other hother => ?_)
  have hne : other ≠ field := ((hnodup.mem_erase_iff).1 hother).1
  exact congrArg PlacedText.cells (Function.update_of_ne hne _ _)

theorem cells_put (p : PlacedUri) (field : Field) (t : PlacedText) :
    (p.put field t).cells = t.cells + p.others field := by
  rw [cells_eq _ field, texts_put, others_put]

/-- The pointers do not change when the new text is where the old one was. -/
theorem record_put {p : PlacedUri} {field : Field} {t : PlacedText}
    (h : (p.texts field).record = t.record) : (p.put field t).record = p.record := by
  cases field <;> simp [record, put, h]

/-- A text is put where none was. -/
theorem cells_put_of_none {p : PlacedUri} {field : Field} (h : p.texts field = none)
    (t : PlacedText) : (p.put field t).cells = t.cells + p.cells := by
  rw [cells_put, p.cells_eq field, h, PlacedText.cells_none, zero_add]

theorem get_value (p : PlacedUri) (field : Field) :
    field.get p.value = (p.texts field).value := by
  cases field <;> rfl

/-- A zeroed struct has no texts. -/
theorem eq_zeroed {p : PlacedUri} (h : p.value = {}) : p = {} := by
  have htexts : p.texts = fun _ => none := by
    funext field
    refine PlacedText.eq_none_of_value ((p.get_value field).symm.trans ?_)
    rw [h]
    cases field <;> rfl
  obtain ⟨isIpv6, hasAuthentication, port, texts⟩ := p
  cases (htexts : texts = _)
  cases (congrArg Unalix.URI.isIpv6 h : isIpv6 = 0)
  cases (congrArg Unalix.URI.hasAuthentication h : hasAuthentication = 0)
  cases (congrArg Unalix.URI.port h : port = 0)
  rfl

@[simp] theorem cells_zeroed : cells {} = 0 := rfl

def setAuthentication (p : PlacedUri) : PlacedUri :=
  { p with hasAuthentication := if p.hasAuthentication = 0 then 1 else p.hasAuthentication }

end PlacedUri

/-! ## Accesses to placed texts -/

section Accesses

variable {k : ℕ} {h : Heap Block} {cells rest : Multiset (ℕ × Block)}

theorem readString_of_mem {a : ℕ} {t : Text} (hh : Holds k h cells)
    (hmem : (a, .string t) ∈ cells) : readString a h = .ok t.content h := by
  have hread : Heaps.read invalid a h = .ok (.string t) h := by
    rw [Heaps.read, (hh.blocks_iff a _).2 hmem]
  rw [readString, run_bind_of_ok hread]
  rfl

/-- A string is put in a block that has room for it. -/
theorem exists_mallocString {size : ℕ} {s : Bytes} (hh : Holds k h rest) (hs : s.length < size) :
    ∃ a h', mallocString size s h = .ok a h' ∧
      Holds k h' ((a, .string ⟨size, s, hs⟩) ::ₘ rest) := by
  rw [mallocString, dif_pos hs]
  exact hh.alloc _

theorem exists_allocString (hh : Holds k h rest) (s : Bytes) :
    ∃ a h', allocString s h = .ok a h' ∧ Holds k h' ((a, .string (.exact s)) ::ₘ rest) :=
  exists_mallocString hh (Nat.lt_succ_self _)

/-- A string is written over another one that has room for it. -/
theorem exists_writeString {a : ℕ} {t : Text} (hh : Holds k h ((a, .string t) ::ₘ rest))
    {s : Bytes} (hs : s.length < t.size) :
    ∃ h', writeString a s h = .ok () h' ∧ Holds k h' ((a, .string ⟨t.size, s, hs⟩) ::ₘ rest) := by
  obtain ⟨h', hwrite, hh'⟩ := hh.write invalid (.string ⟨t.size, s, hs⟩)
  refine ⟨h', ?_, hh'⟩
  rw [writeString, run_bind_of_ok (hh.read invalid)]
  simp only [dif_pos hs]
  exact hwrite

theorem readText_of_le {t : PlacedText} (hh : Holds k h cells) (hle : t.cells ≤ cells) :
    readText t.record h = .ok t.value h := by
  cases t with
  | none => rfl
  | some t =>
    have hmem : (t.1, Block.string t.2) ∈ cells := Multiset.singleton_le.1 hle
    exact run_bind_of_ok (readString_of_mem hh hmem) _

theorem exists_allocText (hh : Holds k h rest) (s : Option Bytes) :
    ∃ (t : PlacedText) (h' : Heap Block), allocText s h = .ok t.record h' ∧ t.value = s ∧
      Holds k h' (t.cells + rest) := by
  cases s with
  | none => exact ⟨none, h, rfl, rfl, by rwa [PlacedText.cells_none, zero_add]⟩
  | some s =>
    obtain ⟨a, h', halloc, hh'⟩ := exists_allocString hh s
    refine ⟨some (a, .exact s), h', run_bind_of_ok halloc _, rfl, ?_⟩
    rwa [PlacedText.cells_some, Multiset.singleton_add]

theorem exists_freePointer {t : PlacedText} (hh : Holds k h (t.cells + rest)) :
    ∃ h', freePointer t.record h = .ok () h' ∧ Holds k h' rest := by
  cases t with
  | none => exact ⟨h, rfl, by rwa [PlacedText.cells_none, zero_add] at hh⟩
  | some t =>
    rw [PlacedText.cells_some, Multiset.singleton_add] at hh
    exact hh.free invalid

/-- **The texts of a URI are freed**, and nothing else. -/
theorem exists_uriFree {p : PlacedUri} (hh : Holds k h (p.cells + rest)) :
    ∃ h', uriFree p.record h = .ok () h' ∧ Holds k h' rest := by
  simp only [PlacedUri.cells, Field.all, List.map_cons, List.map_nil, List.sum_cons,
    List.sum_nil, add_zero, add_assoc] at hh
  obtain ⟨h₁, hscheme, hh⟩ := exists_freePointer hh
  obtain ⟨h₂, husername, hh⟩ := exists_freePointer hh
  obtain ⟨h₃, hpassword, hh⟩ := exists_freePointer hh
  obtain ⟨h₄, hhostname, hh⟩ := exists_freePointer hh
  obtain ⟨h₅, hpath, hh⟩ := exists_freePointer hh
  obtain ⟨h₆, hquery, hh⟩ := exists_freePointer hh
  obtain ⟨h₇, hfragment, hh⟩ := exists_freePointer hh
  refine ⟨h₇, ?_, hh⟩
  refine (run_bind_of_ok hscheme _).trans ((run_bind_of_ok husername _).trans ?_)
  refine (run_bind_of_ok hpassword _).trans ((run_bind_of_ok hhostname _).trans ?_)
  exact (run_bind_of_ok hpath _).trans ((run_bind_of_ok hquery _).trans hfragment)

theorem readField_eq {p : PlacedUri} (hh : Holds k h (p.cells + rest)) (field : Field) :
    readText (p.texts field).record h = .ok (p.texts field).value h := by
  refine readText_of_le hh ?_
  rw [p.cells_eq field, add_assoc]
  exact Multiset.le_add_right _ _

/-- The pointers of a URI lead to its texts. -/
theorem readUri_eq {p : PlacedUri} (hh : Holds k h (p.cells + rest)) :
    readUri p.record h = .ok p.value h := by
  unfold readUri
  refine (run_bind_of_ok (readField_eq hh .scheme) _).trans ?_
  refine (run_bind_of_ok (readField_eq hh .username) _).trans ?_
  refine (run_bind_of_ok (readField_eq hh .password) _).trans ?_
  refine (run_bind_of_ok (readField_eq hh .hostname) _).trans ?_
  refine (run_bind_of_ok (readField_eq hh .path) _).trans ?_
  refine (run_bind_of_ok (readField_eq hh .query) _).trans ?_
  exact run_bind_of_ok (readField_eq hh .fragment) _

/-- **`uri_stringify` in memory**: the text fills its block. -/
theorem exists_uriStringify {p : PlacedUri} (hh : Holds k h (p.cells + rest)) :
    ∃ a h', uriStringify p.record h = .ok a h' ∧
      Holds k h' ((a, .string (.exact (Unalix.uriStringify p.value))) ::ₘ (p.cells + rest)) := by
  obtain ⟨a, h', halloc, hh'⟩ := exists_allocString hh (Unalix.uriStringify p.value)
  rw [allocString, length_uriStringify] at halloc
  exact ⟨a, h', (run_bind_of_ok (readUri_eq hh) _).trans halloc, hh'⟩

end Accesses

/-! ## Calculations -/

section Calculations

variable {σ α β γ : Type} {P : σ → Prop} {E : Failure → σ → Prop}

theorem simulates_ofOutcome (r : Outcome α) (hE : ∀ e s, P s → E e s) :
    Simulates P (ofOutcome r : EStateM Failure σ α) r (fun v a s => a = v ∧ P s) E := by
  cases r with
  | ok v => exact Simulates.pure fun s hs => ⟨rfl, hs⟩
  | error e => exact Simulates.throw (hE e)

/-- The same calculation on both sides. -/
theorem simulates_ofOutcome_bind {r : Outcome α} {f : α → EStateM Failure σ β}
    {g : α → Outcome γ} {Q : γ → β → σ → Prop} (hE : ∀ e s, P s → E e s)
    (h : ∀ a, r = .ok a → Simulates P (f a) (g a) Q E) :
    Simulates P (ofOutcome r >>= f) (r >>= g) Q E := by
  cases r with
  | ok a => exact h a rfl
  | error e => exact Simulates.throw (hE e)

end Calculations

end Unalix.OnHeap
