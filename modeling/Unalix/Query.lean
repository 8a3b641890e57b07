import Unalix.Uri.Tail

/-!
# Query strings (`query.c`)

A query is a list of parameters, a key and a value each, either of which may be absent. The parser
looks for the next `&`, and for the first `=` of the whole rest of the string, which it ignores
when the `&` comes first. So it reads the pieces between the `&` (`queryParse_eq`), and cuts each
at its first `=`. The printer writes an `=` for every parameter.
-/

namespace Unalix

open CString

def andSign : UInt8 := '&'.toUInt8

def equalSign : UInt8 := '='.toUInt8

/-- `struct Parameter`. -/
structure Parameter where
  key : Option Bytes := none
  value : Option Bytes := none
  deriving DecidableEq, Repr

/-! ## The parser -/

/-- `size` bytes are copied into fresh memory, when there are any. -/
def copyBytes (start : Bytes) (size : ℕ) : Option Bytes :=
  if 0 < size then some (start.take size) else none

/-- The body of the loop of `query_parse`: the parameter between two pointers. -/
def parseParameter (paramStart paramEnd : Bytes) : Parameter :=
  let separator := match strstr paramStart [equalSign] with
    | none => paramEnd
    | some separator => if separator.length < paramEnd.length then paramEnd else separator
  let key := copyBytes paramStart (paramStart.length - separator.length)
  let separator := if separator ≠ paramEnd then separator.drop 1 else separator
  let valueSize := if separator = paramEnd then 0 else separator.length - paramEnd.length
  { key := key, value := copyBytes separator valueSize }

/-- `query_parse`, when memory can be allocated. -/
def queryParse (query : Bytes) : List Parameter :=
  match _h : strstr query [andSign] with
  | none => [parseParameter query []]
  | some paramEnd => parseParameter query paramEnd :: queryParse (paramEnd.drop 1)
termination_by query.length
decreasing_by
  have := length_le_of_strstr _h
  simp only [List.length_drop, List.length_singleton] at *
  omega

/-! ## The printer -/

/-- The body of the loop of `query_stringify`. -/
def appendParameter (dst : Bytes) (parameter : Parameter) : Bytes :=
  (if dst ≠ [] then dst ++ [andSign] else dst) ++ text parameter.key ++ [equalSign] ++
    text parameter.value

/-- `query_stringify`. -/
def queryStringify (parameters : List Parameter) : Bytes := parameters.foldl appendParameter []

/-! ## The parameters of a query -/

/-- The parameter that a piece without `&` is read as. -/
def readParameter (piece : Bytes) : Parameter where
  key := nonempty (before equalSign piece)
  value := nonempty (after equalSign piece)

theorem copyBytes_append (x stop : Bytes) :
    copyBytes (x ++ stop) ((x ++ stop).length - stop.length) = nonempty x := by
  have hsize : (x ++ stop).length - stop.length = x.length := by
    rw [List.length_append]
    omega
  rw [copyBytes, hsize, List.take_left]
  rcases x with _ | ⟨c, x⟩ <;> simp [nonempty]

/-- A piece with an `=`. -/
theorem parseParameter_cut {key : Bytes} (hkey : equalSign ∉ key) (value paramEnd : Bytes) :
    parseParameter (key ++ equalSign :: (value ++ paramEnd)) paramEnd =
      ⟨nonempty key, nonempty value⟩ := by
  have hlt : ¬ (equalSign :: (value ++ paramEnd)).length < paramEnd.length := by
    simp only [List.length_cons, List.length_append]
    omega
  have hne : equalSign :: (value ++ paramEnd) ≠ paramEnd := by
    intro h
    have := congrArg List.length h
    simp only [List.length_cons, List.length_append] at this
    omega
  have hsize : (if value ++ paramEnd = paramEnd then 0
      else (value ++ paramEnd).length - paramEnd.length) =
        (value ++ paramEnd).length - paramEnd.length := by
    split
    · rename_i h
      rw [h, Nat.sub_self]
    · rfl
  simp only [parseParameter, strstr_singleton_cut hkey, if_neg hlt, if_pos hne, List.drop_one,
    List.tail_cons]
  rw [hsize, copyBytes_append, copyBytes_append]

/-- A piece without an `=`: the next `=`, if there is one, is behind its end. -/
theorem parseParameter_append {key paramEnd : Bytes} (hkey : equalSign ∉ key)
    (hend : paramEnd.head? ≠ some equalSign) :
    parseParameter (key ++ paramEnd) paramEnd = ⟨nonempty key, none⟩ := by
  have hseparator : (match strstr (key ++ paramEnd) [equalSign] with
      | none => paramEnd
      | some separator => if separator.length < paramEnd.length then paramEnd else separator) =
        paramEnd := by
    rw [strstr_singleton_append hkey]
    cases h : strstr paramEnd [equalSign] with
    | none => rfl
    | some separator =>
      obtain ⟨a, b, rfl, rfl, -⟩ := strstr_singleton_eq_some_iff.1 h
      cases a with
      | nil => simp at hend
      | cons c a => simp
  simp only [parseParameter, hseparator, ne_eq, not_true_eq_false, if_false, if_true]
  rw [copyBytes_append]
  rfl

/-- One piece, up to a `&` or to the end. -/
theorem parseParameter_piece {piece paramEnd : Bytes} (hend : paramEnd.head? ≠ some equalSign) :
    parseParameter (piece ++ paramEnd) paramEnd = readParameter piece := by
  by_cases h : equalSign ∈ piece
  · obtain ⟨key, value, rfl, hkey⟩ := List.eq_append_cons_of_mem h
    rw [List.append_assoc, List.cons_append, parseParameter_cut hkey, readParameter,
      before_cut hkey, after_cut hkey]
  · rw [parseParameter_append h hend, readParameter, before_of_not_mem h, after_of_not_mem h,
      nonempty_nil]

/-- **A query is read piece by piece.** -/
theorem queryParse_eq (query : Bytes) :
    queryParse query = (query.splitOn andSign).map readParameter := by
  induction hn : query.length using Nat.strong_induction_on generalizing query with
  | _ n ih =>
    by_cases h : andSign ∈ query
    · obtain ⟨piece, rest, rfl, hpiece⟩ := List.eq_append_cons_of_mem h
      have hend : (andSign :: rest).head? ≠ some equalSign := by
        simpa using (show andSign ≠ equalSign by decide)
      rw [queryParse, splitOn_cut hpiece, List.map_cons]
      split
      · rename_i hnone
        exact absurd h (strstr_singleton_eq_none_iff.1 hnone)
      · rename_i paramEnd hsome
        rw [strstr_singleton_cut hpiece, Option.some.injEq] at hsome
        subst hsome
        rw [parseParameter_piece hend, List.drop_one, List.tail_cons,
          ih rest.length (by simp [← hn]; omega) rest rfl]
    · rw [queryParse, splitOn_of_not_mem h, List.map_singleton]
      split
      · have hend := @parseParameter_piece query [] nofun
        rw [List.append_nil] at hend
        rw [hend]
      · rename_i paramEnd hsome
        rw [strstr_singleton_eq_none_iff.2 h] at hsome
        cases hsome

/-- Even the empty query has a parameter. -/
theorem queryParse_ne_nil (query : Bytes) : queryParse query ≠ [] := by
  rw [queryParse_eq]
  simp

/-- The query of the test suite: keys and values may be absent. -/
example : queryParse (str "a=b&&g&h=&=i") =
    [⟨some (str "a"), some (str "b")⟩, ⟨none, none⟩, ⟨some (str "g"), none⟩,
      ⟨some (str "h"), none⟩, ⟨none, some (str "i")⟩] := by
  rw [queryParse_eq]
  decide

/-! ## The printed parameters -/

/-- What is printed for a parameter. -/
def Parameter.text (parameter : Parameter) : Bytes :=
  Unalix.text parameter.key ++ equalSign :: Unalix.text parameter.value

theorem Parameter.text_ne_nil (parameter : Parameter) : parameter.text ≠ [] := by
  simp [text]

theorem foldl_appendParameter {dst : Bytes} (hdst : dst ≠ []) (parameters : List Parameter) :
    parameters.foldl appendParameter dst =
      [andSign].intercalate (dst :: parameters.map Parameter.text) := by
  induction parameters generalizing dst with
  | nil => rw [List.map_nil, List.intercalate_singleton, List.foldl_nil]
  | cons parameter parameters ih =>
    have hstep : appendParameter dst parameter = dst ++ [andSign] ++ parameter.text := by
      simp [appendParameter, hdst, Parameter.text]
    have hne : dst ++ [andSign] ++ parameter.text ≠ [] := by simp [hdst]
    rw [List.foldl_cons, hstep, ih hne, List.map_cons, intercalate_append_cons]

/-- **The printed query is its parameters**, between `&`. -/
theorem queryStringify_eq (parameters : List Parameter) :
    queryStringify parameters = [andSign].intercalate (parameters.map Parameter.text) := by
  cases parameters with
  | nil => rfl
  | cons parameter parameters =>
    have hne := parameter.text_ne_nil
    have hstep : appendParameter [] parameter = parameter.text := by
      simp [appendParameter, Parameter.text]
    rw [queryStringify, List.foldl_cons, hstep, foldl_appendParameter hne, List.map_cons]

/-- One more parameter is appended. -/
theorem queryStringify_concat (parameters : List Parameter) (parameter : Parameter) :
    queryStringify (parameters ++ [parameter]) =
      appendParameter (queryStringify parameters) parameter := by
  rw [queryStringify, List.foldl_append]
  rfl

theorem queryStringify_ne_nil {parameters : List Parameter} (h : parameters ≠ []) :
    queryStringify parameters ≠ [] := by
  obtain ⟨parameter, parameters, rfl⟩ := List.exists_cons_of_ne_nil h
  rw [queryStringify_eq, List.map_cons, intercalate_cons]
  exact List.append_ne_nil_of_left_ne_nil parameter.text_ne_nil _

end Unalix
