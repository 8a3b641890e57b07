import Unalix.Query

/-!
# The parameters of a query, stored and counted (`query.c`)

`struct Query` keeps the parameters in the order in which they are put, with the length of the
text that they are printed as. The printer decides where a `&` goes by looking at what it has
written, and the store by looking at the length it has counted (`Query.Counted`): the two agree,
because no parameter is printed as nothing.

Printing and parsing are inverse to one another on the parameters that the parser can produce
(`Parameter.Plain`), so a query is in normal form after one round.
-/

namespace Unalix

open CString

/-- `sizeof(struct Parameter)`, two pointers. -/
def sizeofParameter : ℕ := 16

/-- `struct Query`; `position` is the length of `parameters`. -/
structure Query where
  size : ℕ := 0
  slength : ℕ := 0
  parameters : List Parameter := []
  deriving DecidableEq, Repr

namespace Query

def position (obj : Query) : ℕ := obj.parameters.length

/-- `put_parameter`, when memory can be allocated. -/
def putParameter (obj : Query) (parameter : Parameter) : Outcome Query :=
  let slength := if 0 < obj.slength then obj.slength + [andSign].length else obj.slength
  let slength := match parameter.key with
    | none => slength
    | some key => slength + key.length
  let slength := slength + [equalSign].length
  let slength := match parameter.value with
    | none => slength
    | some value => slength + value.length
  .ok
    { size := obj.size + sizeofParameter * 1
      slength := slength
      parameters := obj.parameters ++ [parameter] }

/-- `add_parameter`. -/
def addParameter (obj : Query) (key value : Bytes) : Outcome Query :=
  putParameter obj { key := copyBytes key key.length, value := copyBytes value value.length }

/-- `query_stringify` of the structure. -/
def stringify (obj : Query) : Bytes := queryStringify obj.parameters

/-- `query_parse` into a structure that may hold parameters already. -/
def parse (obj : Query) (query : Bytes) : Outcome Query :=
  match _h : strstr query [andSign] with
  | none => putParameter obj (parseParameter query [])
  | some paramEnd => do
    let obj ← putParameter obj (parseParameter query paramEnd)
    parse obj (paramEnd.drop 1)
termination_by query.length
decreasing_by
  have := length_le_of_strstr _h
  simp only [List.length_drop, List.length_singleton] at *
  omega

/-! ## What is stored -/

/-- Putting parameters one after the other. -/
def putAll (obj : Query) (parameters : List Parameter) : Outcome Query :=
  parameters.foldlM putParameter obj

/-- Adding keys and values one after the other. -/
def addAll (obj : Query) (entries : List (Bytes × Bytes)) : Outcome Query :=
  entries.foldlM (fun obj entry => addParameter obj entry.1 entry.2) obj

/-- The length that is kept is that of the printed text. -/
def Counted (obj : Query) : Prop := obj.slength = obj.stringify.length

theorem counted_zeroed : Counted {} := rfl

variable {obj obj' : Query}

/-- One parameter is stored, and what is printed for it counted. -/
theorem putParameter_eq (obj : Query) (parameter : Parameter) : putParameter obj parameter = .ok
    { size := obj.size + sizeofParameter
      slength := (if 0 < obj.slength then obj.slength + 1 else obj.slength) + parameter.text.length
      parameters := obj.parameters ++ [parameter] } := by
  rcases parameter with ⟨_ | key, _ | value⟩ <;>
    simp [putParameter, Parameter.text, Unalix.text] <;> omega

/-- Both tests for a separator come out the same, so the count stays right. -/
theorem Counted.putParameter {parameter : Parameter} (h : Counted obj)
    (hput : putParameter obj parameter = .ok obj') : Counted obj' := by
  rw [putParameter_eq, Except.ok.injEq] at hput
  have hstep : obj'.stringify = appendParameter obj.stringify parameter := by
    rw [← hput, stringify, stringify, queryStringify_concat]
  have hlength : (appendParameter obj.stringify parameter).length =
      (if obj.stringify ≠ [] then obj.stringify.length + 1 else obj.stringify.length) +
        parameter.text.length := by
    rw [appendParameter]
    split
    · simp only [List.length_append, List.length_cons, List.length_nil, Parameter.text]
      omega
    · simp only [List.length_append, List.length_cons, List.length_nil, Parameter.text]
      omega
  have hsign : 0 < obj.stringify.length ↔ obj.stringify ≠ [] := List.length_pos_iff
  rw [Counted, hstep, hlength, ← hput]
  simp only [show obj.slength = obj.stringify.length from h, hsign]

/-- Any parameters can be put, and they come after those that were there. -/
theorem putAll_eq_ok (obj : Query) (parameters : List Parameter) : ∃ obj',
    putAll obj parameters = .ok obj' ∧ obj'.parameters = obj.parameters ++ parameters ∧
      (Counted obj → Counted obj') := by
  induction parameters generalizing obj with
  | nil => exact ⟨obj, rfl, by simp, id⟩
  | cons parameter parameters ih =>
    obtain ⟨next, hput⟩ : ∃ next, putParameter obj parameter = .ok next := ⟨_, rfl⟩
    obtain ⟨obj', hall, hparameters, hcounted⟩ := ih next
    refine ⟨obj', ?_, ?_, fun h => hcounted (h.putParameter hput)⟩
    · rw [putAll, List.foldlM_cons, hput, Outcome.ok_bind]
      exact hall
    · rw [putParameter_eq, Except.ok.injEq] at hput
      rw [hparameters, ← hput, List.append_assoc, List.singleton_append]

theorem queryParse_of_none {query : Bytes} (h : strstr query [andSign] = none) :
    queryParse query = [parseParameter query []] := by
  rw [queryParse]
  split
  · rfl
  · simp_all

theorem queryParse_of_some {query paramEnd : Bytes} (h : strstr query [andSign] = some paramEnd) :
    queryParse query = parseParameter query paramEnd :: queryParse (paramEnd.drop 1) := by
  rw [queryParse]
  split
  · simp_all
  · simp_all

/-- The loop of the parser puts what it reads. -/
theorem parse_eq (obj : Query) (query : Bytes) :
    parse obj query = putAll obj (queryParse query) := by
  induction hn : query.length using Nat.strong_induction_on generalizing query obj with
  | _ n ih =>
    rw [parse]
    split
    · rename_i hnone
      rw [queryParse_of_none hnone, putAll, List.foldlM_cons]
      rfl
    · rename_i paramEnd hsome
      have hlt : (paramEnd.drop 1).length < n := by
        have := length_le_of_strstr hsome
        simp only [List.length_drop, List.length_singleton] at *
        omega
      rw [queryParse_of_some hsome, putAll, List.foldlM_cons]
      exact congrArg _ (funext fun next => ih _ hlt next _ rfl)

/-- Adding a key and a value is putting the parameter they make. -/
theorem addAll_eq (obj : Query) (entries : List (Bytes × Bytes)) : addAll obj entries =
    putAll obj (entries.map fun entry => ⟨nonempty entry.1, nonempty entry.2⟩) := by
  have hcopy (s : Bytes) : copyBytes s s.length = nonempty s := by
    simpa using copyBytes_append s []
  rw [addAll, putAll, List.foldlM_map]
  simp only [addParameter, hcopy]

end Query

/-! ## Parameters that can be read back -/

/-- A parameter that a piece of a query can be read as. -/
structure Parameter.Plain (parameter : Parameter) : Prop where
  key : ∀ key ∈ parameter.key, key ≠ [] ∧ andSign ∉ key ∧ equalSign ∉ key
  value : ∀ value ∈ parameter.value, value ≠ [] ∧ andSign ∉ value

namespace Parameter

variable {parameter : Parameter}

theorem not_mem_text {field : Option Bytes} {c : UInt8} (h : ∀ s ∈ field, c ∉ s) :
    c ∉ Unalix.text field := by
  cases field with
  | none => exact List.not_mem_nil
  | some s => exact h s rfl

theorem Plain.andSign_not_mem (h : Plain parameter) : andSign ∉ parameter.text := by
  have hkey := not_mem_text fun key hkey => (h.key key hkey).2.1
  have hvalue := not_mem_text fun value hvalue => (h.value value hvalue).2
  have hsign : andSign ≠ equalSign := by decide
  simp [Parameter.text, hkey, hvalue, hsign]

/-- What is printed for a plain parameter is read as this parameter. -/
theorem Plain.readParameter_text (h : Plain parameter) : readParameter parameter.text = parameter := by
  have hkey := not_mem_text fun key hkey => (h.key key hkey).2.2
  rw [readParameter, Parameter.text, before_cut hkey, after_cut hkey,
    nonempty_text fun key hkey => (h.key key hkey).1,
    nonempty_text fun value hvalue => (h.value value hvalue).1]

/-- What is read in a piece is plain. -/
theorem plain_readParameter {piece : Bytes} (h : andSign ∉ piece) : Plain (readParameter piece) where
  key key hkey := by
    obtain ⟨hne, rfl⟩ := mem_nonempty_iff.1 hkey
    exact ⟨hne, fun hmem => h (mem_of_mem_before hmem), not_mem_before _ _⟩
  value value hvalue := by
    obtain ⟨hne, rfl⟩ := mem_nonempty_iff.1 hvalue
    exact ⟨hne, fun hmem => h (mem_of_mem_after hmem)⟩

end Parameter

/-- **The printed parameters are read back.** -/
theorem queryParse_queryStringify {parameters : List Parameter} (hne : parameters ≠ [])
    (h : ∀ parameter ∈ parameters, parameter.Plain) :
    queryParse (queryStringify parameters) = parameters := by
  have hpieces : ∀ piece ∈ parameters.map Parameter.text, andSign ∉ piece := by
    intro piece hpiece
    obtain ⟨parameter, hparameter, rfl⟩ := List.mem_map.1 hpiece
    exact (h parameter hparameter).andSign_not_mem
  rw [queryParse_eq, queryStringify_eq,
    List.splitOn_intercalate andSign hpieces (by simpa using hne), List.map_map]
  have hread : ∀ parameter ∈ parameters, (readParameter ∘ Parameter.text) parameter = parameter :=
    fun parameter hparameter => (h parameter hparameter).readParameter_text
  rw [List.map_congr_left hread, List.map_id']

theorem plain_of_mem_queryParse {query : Bytes} {parameter : Parameter}
    (h : parameter ∈ queryParse query) : parameter.Plain := by
  rw [queryParse_eq, List.mem_map] at h
  obtain ⟨piece, hpiece, rfl⟩ := h
  exact Parameter.plain_readParameter (not_mem_of_mem_splitOn hpiece)

/-! ## The normal form -/

/-- A query that has been printed once is printed the same again. -/
theorem queryStringify_queryParse_idem (query : Bytes) :
    queryStringify (queryParse (queryStringify (queryParse query))) =
      queryStringify (queryParse query) := by
  rw [queryParse_queryStringify (queryParse_ne_nil query) fun _ h => plain_of_mem_queryParse h]

/-- A key and a value that `add_parameter` makes a plain parameter of. -/
def PlainEntry (entry : Bytes × Bytes) : Prop :=
  (andSign ∉ entry.1 ∧ equalSign ∉ entry.1) ∧ andSign ∉ entry.2

theorem PlainEntry.plain {entry : Bytes × Bytes} (h : PlainEntry entry) :
    Parameter.Plain ⟨nonempty entry.1, nonempty entry.2⟩ where
  key key hkey := by
    obtain ⟨hne, rfl⟩ := mem_nonempty_iff.1 hkey
    exact ⟨hne, h.1⟩
  value value hvalue := by
    obtain ⟨hne, rfl⟩ := mem_nonempty_iff.1 hvalue
    exact ⟨hne, h.2⟩

/-- Parsing into a zeroed structure succeeds, reads the pieces and counts what is printed. -/
theorem Query.parse_zeroed (query : Bytes) : ∃ obj, Query.parse {} query = .ok obj ∧
    obj.parameters = (query.splitOn andSign).map readParameter ∧ obj.Counted := by
  obtain ⟨obj, hput, hparameters, hcounted⟩ := Query.putAll_eq_ok {} (queryParse query)
  refine ⟨obj, ?_, ?_, hcounted Query.counted_zeroed⟩
  · rw [Query.parse_eq, hput]
  · rw [hparameters, List.nil_append, queryParse_eq]

/-- Plain parameters, however they came into the structure, are read back from what is printed. -/
theorem Query.parse_stringify {obj : Query} (hne : obj.parameters ≠ [])
    (h : ∀ parameter ∈ obj.parameters, parameter.Plain) :
    ∃ read, Query.parse {} obj.stringify = .ok read ∧ read.parameters = obj.parameters := by
  obtain ⟨read, hparse, hread, -⟩ := Query.parse_zeroed obj.stringify
  refine ⟨read, hparse, ?_⟩
  rw [hread, ← queryParse_eq]
  exact queryParse_queryStringify hne h

/-- What `add_parameter` stores for plain keys and values. -/
theorem Query.addAll_zeroed {entries : List (Bytes × Bytes)} (h : ∀ entry ∈ entries, PlainEntry entry) :
    ∃ obj, Query.addAll {} entries = .ok obj ∧
      obj.parameters = entries.map (fun entry => ⟨nonempty entry.1, nonempty entry.2⟩) ∧
      (∀ parameter ∈ obj.parameters, parameter.Plain) ∧ obj.Counted := by
  obtain ⟨obj, hput, hparameters, hcounted⟩ := Query.putAll_eq_ok {}
    (entries.map fun entry => ⟨nonempty entry.1, nonempty entry.2⟩)
  refine ⟨obj, ?_, hparameters, ?_, hcounted Query.counted_zeroed⟩
  · rw [Query.addAll_eq, hput]
  · intro parameter hparameter
    rw [hparameters, List.nil_append, List.mem_map] at hparameter
    obtain ⟨entry, hentry, rfl⟩ := hparameter
    exact (h entry hentry).plain

/-- **The normal form of a query.** Parsing any string succeeds, with one parameter for each piece
between `&`, whose key and value are before and after the first `=`, and keeps the length of the
printed text. Plain parameters, stored or added, are read back from what is printed. So a string
that has been parsed and printed is parsed and printed the same again. -/
theorem query_normalForm :
    (∀ query : Bytes, ∃ obj, Query.parse {} query = .ok obj ∧
      obj.parameters = (query.splitOn andSign).map readParameter ∧
      obj.slength = obj.stringify.length) ∧
    (∀ obj : Query, obj.parameters ≠ [] → (∀ parameter ∈ obj.parameters, parameter.Plain) →
      ∃ read, Query.parse {} obj.stringify = .ok read ∧ read.parameters = obj.parameters) ∧
    (∀ entries : List (Bytes × Bytes), entries ≠ [] → (∀ entry ∈ entries, PlainEntry entry) →
      ∃ obj read, Query.addAll {} entries = .ok obj ∧
        obj.parameters = entries.map (fun entry => ⟨nonempty entry.1, nonempty entry.2⟩) ∧
        obj.slength = obj.stringify.length ∧
        Query.parse {} obj.stringify = .ok read ∧ read.parameters = obj.parameters) ∧
    ∀ (query : Bytes) (obj : Query), Query.parse {} query = .ok obj →
      ∃ again, Query.parse {} obj.stringify = .ok again ∧ again.stringify = obj.stringify := by
  refine ⟨Query.parse_zeroed, fun obj => Query.parse_stringify, ?_, ?_⟩
  · intro entries hne h
    obtain ⟨obj, hadd, hparameters, hplain, hcounted⟩ := Query.addAll_zeroed h
    have hobj : obj.parameters ≠ [] := by
      rw [hparameters]
      simpa using hne
    obtain ⟨read, hparse, hread⟩ := Query.parse_stringify hobj hplain
    exact ⟨obj, read, hadd, hparameters, hcounted, hparse, hread⟩
  · intro query obj hobj
    obtain ⟨again, hparse, hread, -⟩ := Query.parse_zeroed obj.stringify
    obtain ⟨obj', hobj', hparameters, -⟩ := Query.parse_zeroed query
    rw [hobj, Except.ok.injEq] at hobj'
    subst hobj'
    refine ⟨again, hparse, ?_⟩
    have hfirst : obj.stringify = queryStringify (queryParse query) := by
      rw [Query.stringify, hparameters, ← queryParse_eq]
    rw [Query.stringify, hread, ← queryParse_eq, hfirst, queryStringify_queryParse_idem]

/-- A key and a value, and a key without a value. -/
theorem query_normalForm_example : ∃ obj read,
    Query.addAll {} [(str "a", str "b=c"), (str "d", [])] = .ok obj ∧
      obj.slength = obj.stringify.length ∧
      Query.parse {} obj.stringify = .ok read ∧ read.parameters = obj.parameters := by
  have hplain : ∀ entry ∈ [(str "a", str "b=c"), (str "d", [])], PlainEntry entry := by
    intro entry hentry
    simp only [List.mem_cons, List.not_mem_nil, or_false] at hentry
    rcases hentry with rfl | rfl
    · exact ⟨by decide, by decide⟩
    · exact ⟨by decide, by decide⟩
  obtain ⟨obj, read, hadd, -, h⟩ := query_normalForm.2.2.1 _ (by decide) hplain
  exact ⟨obj, read, hadd, h⟩

end Unalix
