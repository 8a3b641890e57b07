import Unalix.OnHeap.Pairs
import Unalix.Parameters

/-!
# The parameters of a query in memory (`query.c`)

The array of a `struct Query` is extended by one element for each parameter, and a parameter owns
the texts of its key and its value. `query_free` frees all of it (`exists_queryFree`).
-/

namespace Unalix.OnHeap

open Calls Heaps CString Ascii

/-- `struct Query`. -/
structure Query where
  size : ℕ := 0
  position : ℕ := 0
  slength : ℕ := 0
  parameters : Option ℕ := none
  deriving DecidableEq, Repr

/-! ## `query.c` -/

/-- `put_parameter`. -/
def putParameter (obj : Query) (parameter : Pair) : HeapCall Query := do
  let size := obj.size + sizeofParameter * 1
  let parameters ← appendPair obj.parameters (size / sizeofParameter) obj.position parameter
  let key ← readText parameter.key
  let value ← readText parameter.value
  let slength := if 0 < obj.slength then obj.slength + [andSign].length else obj.slength
  let slength := match key with
    | none => slength
    | some key => slength + key.length
  let slength := slength + [equalSign].length
  let slength := match value with
    | none => slength
    | some value => slength + value.length
  return { size := size, position := obj.position + 1, slength := slength,
           parameters := some parameters }

/-- The body of the loop of `query_parse`, up to its call. -/
def parseParameter (paramStart paramEnd : Bytes) : HeapCall Pair := do
  let parameter := Unalix.parseParameter paramStart paramEnd
  let key ← allocText parameter.key
  let value ← allocText parameter.value
  return { key := key, value := value }

/-- `query_parse`. -/
def queryParse (obj : Query) (query : Bytes) : HeapCall Query :=
  match _h : strstr query [andSign] with
  | none => do
    let parameter ← parseParameter query []
    putParameter obj parameter
  | some paramEnd => do
    let parameter ← parseParameter query paramEnd
    let obj ← putParameter obj parameter
    queryParse obj (paramEnd.drop 1)
termination_by query.length
decreasing_by
  have := length_le_of_strstr _h
  simp only [List.length_drop, List.length_singleton] at *
  omega

/-- The body of the loop of `query_free`. -/
def freeParameter (parameters : Option ℕ) (index : ℕ) : HeapCall PUnit := do
  let parameter ← getPair parameters index
  freePointer parameter.key
  setPair parameters index { parameter with key := none }
  freePointer parameter.value

/-- `query_free`: the struct that is left is zeroed, but for `slength`. -/
def queryFree (obj : Query) : HeapCall Unit := do
  forRange (freeParameter obj.parameters) obj.position 0
  freePointer obj.parameters

/-! ## Placed values -/

/-- The parameter that a pair stands for. -/
def PlacedPair.parameter (t : PlacedPair) : Parameter where
  key := t.key.value
  value := t.value.value

/-- A `struct Query` with its array, if it has one, and its parameters. -/
structure PlacedQuery extends PlacedPairs where
  slength : ℕ := 0

namespace PlacedQuery

def record (q : PlacedQuery) : Query where
  size := sizeofParameter * q.items.length
  position := q.items.length
  slength := q.slength
  parameters := q.array

def value (q : PlacedQuery) : Unalix.Query where
  size := sizeofParameter * q.items.length
  slength := q.slength
  parameters := q.items.map PlacedPair.parameter

end PlacedQuery

/-! ## Parsing -/

section Spec

variable {k : ℕ} {h : Heap Block} {rest : Multiset (ℕ × Block)}

/-- A parameter is put behind those that are stored. -/
theorem exists_putParameter {q : PlacedQuery} {t : PlacedPair}
    (hh : Holds k h (q.cells + (t.cells + rest))) :
    ∃ (q' : PlacedQuery) (h' : Heap Block), putParameter q.record t.record h = .ok q'.record h' ∧
      q.value.putParameter t.parameter = .ok q'.value ∧ Holds k h' (q'.cells + rest) := by
  have hsize : (sizeofParameter * q.items.length + sizeofParameter * 1) / sizeofParameter =
      q.items.length + 1 := by
    rw [← Nat.mul_add, Nat.mul_div_cancel_left _ (by decide)]
  obtain ⟨q', a, h', happend, harray, hitems, hh'⟩ := exists_appendPair hh
  have hcells : t.cells ≤ q'.cells + rest := by
    refine le_trans ?_ (Multiset.le_add_right _ _)
    rw [PlacedPairs.cells, hitems, PlacedPair.itemCells_append, PlacedPair.itemCells_cons,
      PlacedPair.itemCells_nil, add_zero]
    exact (Multiset.le_add_left _ _).trans (Multiset.le_add_left _ _)
  have hkey := readText_of_le hh' (t.key_le.trans hcells)
  have hvalue := readText_of_le hh' (t.value_le.trans hcells)
  have hstored : sizeofParameter * (q.items ++ [t]).length =
      sizeofParameter * q.items.length + sizeofParameter * 1 := by
    rw [List.length_append, List.length_singleton, Nat.mul_add]
  obtain ⟨v, hput⟩ : ∃ v, q.value.putParameter t.parameter = .ok v := ⟨_, rfl⟩
  refine ⟨{ q' with slength := v.slength }, h', ?_, ?_, hh'⟩
  · refine (congrArg (fun n => (appendPair q.array n _ _ >>= _) h) hsize).trans ?_
    refine (run_bind_of_ok happend _).trans ?_
    refine (run_bind_of_ok hkey _).trans ((run_bind_of_ok hvalue _).trans ?_)
    cases hput
    simp only [PlacedQuery.record, harray, hitems, List.length_append, List.length_singleton]
    rfl
  · cases hput
    simp only [PlacedQuery.value, hstored, hitems, List.map_append, List.map_cons, List.map_nil]
    rfl

/-- The texts of a parameter are copied. -/
theorem exists_parseParameter (hh : Holds k h rest) (paramStart paramEnd : Bytes) :
    ∃ (t : PlacedPair) (h' : Heap Block), parseParameter paramStart paramEnd h = .ok t.record h' ∧
      t.parameter = Unalix.parseParameter paramStart paramEnd ∧ Holds k h' (t.cells + rest) := by
  obtain ⟨key, h₁, hkey, hkey', hh⟩ :=
    exists_allocText hh (Unalix.parseParameter paramStart paramEnd).key
  obtain ⟨value, h', hvalue, hvalue', hh⟩ :=
    exists_allocText hh (Unalix.parseParameter paramStart paramEnd).value
  refine ⟨⟨key, value⟩, h', (run_bind_of_ok hkey _).trans (run_bind_of_ok hvalue _), ?_, ?_⟩
  · rw [PlacedPair.parameter, hkey', hvalue']
  · rwa [PlacedPair.cells, add_assoc, add_left_comm]

theorem queryParse_of_none {query : Bytes} (h : strstr query [andSign] = none) (obj : Query) :
    queryParse obj query = parseParameter query [] >>= putParameter obj := by
  rw [queryParse]
  split
  · rfl
  · simp_all

theorem queryParse_of_some {query paramEnd : Bytes} (h : strstr query [andSign] = some paramEnd)
    (obj : Query) :
    queryParse obj query = parseParameter query paramEnd >>= fun parameter =>
      putParameter obj parameter >>= fun obj => queryParse obj (paramEnd.drop 1) := by
  rw [queryParse]
  split
  · simp_all
  · simp_all

/-- A parameter is read and put behind those that are stored. -/
theorem exists_putParsed {q : PlacedQuery} (hh : Holds k h (q.cells + rest))
    (paramStart paramEnd : Bytes) :
    ∃ (q' : PlacedQuery) (h' : Heap Block),
      (parseParameter paramStart paramEnd >>= putParameter q.record) h = .ok q'.record h' ∧
      q.value.putParameter (Unalix.parseParameter paramStart paramEnd) = .ok q'.value ∧
      Holds k h' (q'.cells + rest) := by
  obtain ⟨t, h₁, hparse, ht, hh⟩ := exists_parseParameter hh paramStart paramEnd
  rw [add_left_comm] at hh
  obtain ⟨q', h', hput, hvalue, hh⟩ := exists_putParameter hh
  rw [ht] at hvalue
  exact ⟨q', h', (run_bind_of_ok hparse _).trans hput, hvalue, hh⟩

/-- **`query_parse` in memory.** -/
theorem exists_queryParse (query : Bytes) {q : PlacedQuery} (hh : Holds k h (q.cells + rest)) :
    ∃ (q' : PlacedQuery) (h' : Heap Block), queryParse q.record query h = .ok q'.record h' ∧
      q.value.putAll (Unalix.queryParse query) = .ok q'.value ∧ Holds k h' (q'.cells + rest) := by
  induction hn : query.length using Nat.strong_induction_on generalizing query q h with
  | _ n ih =>
    cases hs : strstr query [andSign] with
    | none =>
      obtain ⟨q', h', hrun, hvalue, hh⟩ := exists_putParsed hh query []
      rw [queryParse_of_none hs, Unalix.Query.queryParse_of_none hs]
      refine ⟨q', h', hrun, ?_, hh⟩
      rw [Query.putAll, List.foldlM_cons, hvalue]
      rfl
    | some paramEnd =>
      have hlt : (paramEnd.drop 1).length < n := by
        have := length_le_of_strstr hs
        simp only [List.length_drop, List.length_singleton] at *
        omega
      obtain ⟨q₁, h₁, hrun, hvalue, hh⟩ := exists_putParsed hh query paramEnd
      obtain ⟨q', h', hparse, hrest, hh⟩ := ih _ hlt _ hh rfl
      rw [queryParse_of_some hs, Unalix.Query.queryParse_of_some hs, ← bind_assoc]
      refine ⟨q', h', (run_bind_of_ok hrun _).trans hparse, ?_, hh⟩
      rw [Query.putAll, List.foldlM_cons, hvalue]
      exact hrest

/-- A query is parsed into a zeroed struct. -/
theorem exists_queryParse_zeroed (query : Bytes) (hh : Holds k h rest) :
    ∃ (q : PlacedQuery) (h' : Heap Block), queryParse {} query h = .ok q.record h' ∧
      q.items.map PlacedPair.parameter = Unalix.queryParse query ∧
      Holds k h' (q.cells + rest) := by
  obtain ⟨q, h', hparse, hq, hh'⟩ := @exists_queryParse k h rest query {}
    (by rwa [PlacedPairs.cells_none, zero_add])
  obtain ⟨v, hall, hv, -⟩ :=
    Unalix.Query.putAll_eq_ok (PlacedQuery.value {}) (Unalix.queryParse query)
  rw [hq, Except.ok.injEq] at hall
  subst hall
  exact ⟨q, h', hparse, hv, hh'⟩

/-! ## Freeing -/

/-- **A query is freed**, with its parameters. -/
theorem exists_queryFree {q : PlacedQuery} (hh : Holds k h (q.cells + rest)) :
    ∃ h', queryFree q.record h = .ok () h' ∧ Holds k h' rest := by
  refine @exists_freePairs _ _ _ freeParameter _ (fun a done t items h hh => ?_) hh
  have hget := Holds.getAt (K := pairArray) hh invalid
  rw [PlacedPair.itemCells_cons, PlacedPair.cells, add_assoc, add_assoc, ← Multiset.add_cons] at hh
  obtain ⟨h₁, hkey, hh⟩ := exists_freePointer hh
  obtain ⟨h₂, hset, hh⟩ := Holds.setAt (K := pairArray) hh invalid { t.record with key := none }
  rw [← Multiset.add_cons] at hh
  obtain ⟨h', hvalue, hh⟩ := exists_freePointer hh
  refine ⟨_, h', ?_, hh⟩
  exact (run_bind_of_ok hget _).trans
    ((run_bind_of_ok hkey _).trans ((run_bind_of_ok hset _).trans hvalue))

end Spec

end Unalix.OnHeap
