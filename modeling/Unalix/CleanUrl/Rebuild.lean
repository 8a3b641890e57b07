import Unalix.CleanUrl.Independence

/-!
# The query that is written again (`clean_url.c`)

After the rules have been stripped, the query is parsed, parameters without a key or a value are
left out if the one flag is set, and of the parameters with one key only the first if the other is.
The loop does both in one pass, and looks for an earlier occurrence among the parameters that it
has kept. So a parameter that was left out for lack of a value does not count as the first of its
key (`foldl_rebuildParameter`), and the text is that of the parameters kept
(`rebuildQuery_eq`).
-/

namespace Unalix

open CString

/-! ## The first of each key -/

section FirstOfKey

variable {α κ : Type*} [DecidableEq κ] (key : α → κ)

/-- The first element of each key, in order. -/
def firstOfKey (l : List α) : List α := l.eraseDupsBy fun x y => key x = key y

@[simp] theorem firstOfKey_nil : firstOfKey key [] = [] := rfl

theorem firstOfKey_cons (x : α) (l : List α) :
    firstOfKey key (x :: l) = x :: firstOfKey key (l.filter fun y => key y ≠ key x) := by
  rw [firstOfKey, List.eraseDupsBy_cons, firstOfKey]
  simp only [ne_eq, decide_eq_false_iff_not]

/-- One more element is kept when its key is new. -/
theorem firstOfKey_concat (l : List α) (x : α) : firstOfKey key (l ++ [x]) =
    if key x ∈ l.map key then firstOfKey key l else firstOfKey key l ++ [x] := by
  induction hn : l.length using Nat.strong_induction_on generalizing l with
  | _ n ih =>
    cases l with
    | nil => rfl
    | cons y l =>
      have hlt : (l.filter fun z => key z ≠ key y).length < n := by
        have := List.length_filter_le (fun z => key z ≠ key y) l
        rw [List.length_cons] at hn
        omega
      rw [List.cons_append, firstOfKey_cons, firstOfKey_cons, List.filter_append]
      by_cases hx : key x = key y
      · simp [hx]
      · have hmem : key x ∈ (l.filter fun z => key z ≠ key y).map key ↔
            key x ∈ (y :: l).map key := by
          simp only [List.mem_map, List.mem_filter, decide_eq_true_eq, List.map_cons,
            List.mem_cons, hx, false_or]
          constructor
          · rintro ⟨z, ⟨hz, -⟩, hzx⟩
            exact ⟨z, hz, hzx⟩
          · rintro ⟨z, hz, hzx⟩
            exact ⟨z, ⟨hz, hzx ▸ hx⟩, hzx⟩
        rw [List.filter_singleton, decide_eq_true hx]
        simp only [cond_true]
        rw [ih _ hlt _ rfl]
        simp only [hmem]
        split <;> rfl

/-- The keys that occur are those of the elements kept. -/
theorem mem_map_firstOfKey {l : List α} {k : κ} :
    k ∈ (firstOfKey key l).map key ↔ k ∈ l.map key := by
  induction l using List.reverseRecOn with
  | nil => rfl
  | append_singleton l x ih =>
    rw [firstOfKey_concat, List.map_append, List.mem_append, List.map_singleton,
      List.mem_singleton]
    split
    · rename_i h
      rw [ih]
      constructor
      · exact Or.inl
      · rintro (hk | rfl)
        · exact hk
        · exact h
    · rw [List.map_append, List.mem_append, ih, List.map_singleton, List.mem_singleton]

end FirstOfKey

/-! ## The parameters that are kept -/

/-- The parameters that remain when `strip_empty` is looked at: those with a key and a value if it
is set. -/
def remainingParameters (flags : Flags) (parameters : List Parameter) : List Parameter :=
  if flags.stripEmpty ≠ 0 then
    parameters.filter fun parameter => parameter.key.isSome && parameter.value.isSome
  else parameters

/-- The parameters that are kept: of those that remain, the first of each key if `strip_duplicates`
is set. -/
def keptParameters (flags : Flags) (parameters : List Parameter) : List Parameter :=
  if flags.stripDuplicates ≠ 0 then
    firstOfKey Parameter.key (remainingParameters flags parameters)
  else remainingParameters flags parameters

/-- A first occurrence that is left out does not count. -/
example : keptParameters { stripEmpty := 1, stripDuplicates := 1 }
    [⟨str "a", none⟩, ⟨str "a", str "1"⟩, ⟨str "b", str "2"⟩, ⟨str "a", str "3"⟩] =
      [⟨str "a", str "1"⟩, ⟨str "b", str "2"⟩] := by
  decide

@[simp] theorem keptParameters_nil (flags : Flags) : keptParameters flags [] = [] := by
  simp [keptParameters, remainingParameters]

/-- The query that is left of the parameters kept. -/
def renderedQuery (kept : List Parameter) : Option Bytes :=
  if kept = [] then none else some ([andSign].intercalate (kept.map Parameter.text))

theorem sameKey_iff (parameter other : Parameter) :
    sameKey parameter other = true ↔ other.key = parameter.key := by
  rcases parameter with ⟨_ | key, value⟩ <;> rcases other with ⟨_ | otherKey, otherValue⟩ <;>
    simp [sameKey, eq_comm]

theorem any_sameKey (kept : List Parameter) (parameter : Parameter) :
    kept.any (sameKey parameter) = true ↔ parameter.key ∈ kept.map Parameter.key := by
  simp only [List.any_eq_true, List.mem_map, sameKey_iff]

theorem remainingParameters_concat (flags : Flags) (parameters : List Parameter)
    (parameter : Parameter) : remainingParameters flags (parameters ++ [parameter]) =
      if flags.stripEmpty ≠ 0 && (parameter.key.isNone || parameter.value.isNone) then
        remainingParameters flags parameters
      else remainingParameters flags parameters ++ [parameter] := by
  unfold remainingParameters
  by_cases hempty : flags.stripEmpty = 0
  · simp [hempty]
  · rcases parameter with ⟨_ | key, _ | value⟩ <;> simp [hempty]

/-- What is kept when one more parameter comes: the first of a key is looked for among the
parameters that have been kept. -/
theorem keptParameters_concat (flags : Flags) (parameters : List Parameter)
    (parameter : Parameter) : keptParameters flags (parameters ++ [parameter]) =
      if flags.stripEmpty ≠ 0 && (parameter.key.isNone || parameter.value.isNone) then
        keptParameters flags parameters
      else if flags.stripDuplicates ≠ 0 then
        if (keptParameters flags parameters).any (sameKey parameter) then
          keptParameters flags parameters
        else keptParameters flags parameters ++ [parameter]
      else keptParameters flags parameters ++ [parameter] := by
  unfold keptParameters
  rw [remainingParameters_concat]
  by_cases hduplicates : flags.stripDuplicates ≠ 0
  · simp only [if_pos hduplicates, any_sameKey, mem_map_firstOfKey]
    split
    · rfl
    · rw [firstOfKey_concat]
      congr
  · simp only [if_neg hduplicates]

/-- The state of the loop after some parameters: the text of those kept, among which a duplicate is
looked for. -/
def rebuiltState (flags : Flags) (parameters : List Parameter) : Bytes × List Parameter :=
  let kept := keptParameters flags parameters
  (queryStringify kept, if flags.stripDuplicates ≠ 0 then kept else [])

/-- **One turn of the loop.** -/
theorem rebuildParameter_rebuiltState (flags : Flags) (parameters : List Parameter)
    (parameter : Parameter) :
    rebuildParameter flags (rebuiltState flags parameters) parameter =
      rebuiltState flags (parameters ++ [parameter]) := by
  rw [rebuiltState, rebuiltState, keptParameters_concat, rebuildParameter]
  generalize keptParameters flags parameters = kept
  split
  · rfl
  · by_cases hduplicates : flags.stripDuplicates ≠ 0
    · simp only [if_pos hduplicates]
      split
      · rfl
      · rw [queryStringify_concat]
    · simp only [if_neg hduplicates, queryStringify_concat]

/-- **The whole loop.** -/
theorem foldl_rebuildParameter (flags : Flags) (parameters : List Parameter) :
    parameters.foldl (rebuildParameter flags) ([], []) = rebuiltState flags parameters := by
  induction parameters using List.reverseRecOn with
  | nil => simp [rebuiltState, queryStringify]
  | append_singleton parameters parameter ih =>
    rw [List.foldl_append, ih]
    exact rebuildParameter_rebuiltState flags parameters parameter

/-- **The query that is written again** is that of the parameters kept. -/
theorem rebuildQuery_eq (flags : Flags) (query : Bytes) :
    rebuildQuery flags (some query) = renderedQuery (keptParameters flags (queryParse query)) := by
  simp only [rebuildQuery, foldl_rebuildParameter, rebuiltState]
  generalize keptParameters flags (queryParse query) = kept
  rw [renderedQuery, ← queryStringify_eq]
  split
  · rename_i h
    rw [h]
    rfl
  · rename_i h
    exact nonempty_of_ne_nil (queryStringify_ne_nil h)

/-! ## The memory it is written to -/

/-- Joined texts have one separator less than there are texts. -/
theorem length_intercalate_succ (c : UInt8) {ls : List Bytes} (h : ls ≠ []) :
    ([c].intercalate ls).length + 1 = (ls.map fun l => l.length + 1).sum := by
  induction ls with
  | nil => exact absurd rfl h
  | cons l ls ih =>
    cases ls with
    | nil => simp
    | cons m ls =>
      have hrest := ih (List.cons_ne_nil m ls)
      rw [List.intercalate_cons_cons, List.map_cons, List.sum_cons, ← hrest]
      simp only [List.length_append, List.length_cons, List.length_nil]
      omega

/-- A piece of the query becomes longer by an `=` at most. -/
theorem length_readParameter_text_le (piece : Bytes) :
    (readParameter piece).text.length ≤ piece.length + 1 := by
  rw [Parameter.text, readParameter]
  simp only [text_nonempty]
  by_cases h : equalSign ∈ piece
  · rw [before_append_cut h]
    exact Nat.le_succ _
  · rw [before_of_not_mem h, after_of_not_mem h]
    simp

/-- All parameters of a query together: an `=` for each, and one `&` less. -/
theorem sum_length_queryParse_le (query : Bytes) :
    ((queryParse query).map fun parameter => parameter.text.length + 1).sum ≤
      2 * (query.length + 1) := by
  have hlength : ((query.splitOn andSign).map fun piece => piece.length + 1).sum =
      query.length + 1 := by
    have hjoined := length_intercalate_succ andSign (List.splitOn_ne_nil andSign query)
    rw [List.intercalate_splitOn] at hjoined
    exact hjoined.symm
  rw [queryParse_eq, List.map_map]
  generalize query.splitOn andSign = pieces at hlength ⊢
  have hcount : pieces.length ≤ (pieces.map fun piece => piece.length + 1).sum := by
    have hle := List.length_le_sum_of_one_le (pieces.map fun piece => piece.length + 1) (by simp)
    rwa [List.length_map] at hle
  calc (pieces.map fun piece => (readParameter piece).text.length + 1).sum
      ≤ (pieces.map fun piece => (piece.length + 1) + 1).sum :=
        List.sum_le_sum fun piece _ => Nat.succ_le_succ (length_readParameter_text_le piece)
    _ = (pieces.map fun piece => piece.length + 1).sum + pieces.length := by
        rw [List.sum_map_add, List.map_const', List.sum_replicate, smul_eq_mul, mul_one]
    _ ≤ 2 * (query.length + 1) := by omega

theorem keptParameters_sublist (flags : Flags) (parameters : List Parameter) :
    (keptParameters flags parameters).Sublist parameters := by
  induction parameters using List.reverseRecOn with
  | nil => simp
  | append_singleton parameters parameter ih =>
    have hskip := ih.trans (List.sublist_append_left parameters [parameter])
    have htake := ih.append (List.Sublist.refl [parameter])
    rw [keptParameters_concat]
    split
    · exact hskip
    · split
      · split
        · exact hskip
        · exact htake
      · exact htake

/-- **The text never outgrows its memory**: the loop is at no time past the `3 * strlen` bytes that
the query is extended to, nor past the room for the parameters that it compares with. -/
theorem rebuildParameter_fits (flags : Flags) {query : Bytes} (hne : query ≠ [])
    {parameters : List Parameter} (h : parameters <+: queryParse query) :
    (parameters.foldl (rebuildParameter flags) ([], [])).1.length ≤ query.length * 3 ∧
      (parameters.foldl (rebuildParameter flags) ([], [])).2.length ≤ (queryParse query).length := by
  have hsub := (keptParameters_sublist flags parameters).trans h.sublist
  have hsum := ((hsub.map fun parameter => parameter.text.length + 1).sum_le_sum
    fun _ _ => Nat.zero_le _).trans (sum_length_queryParse_le query)
  have hpos := List.length_pos_of_ne_nil hne
  simp only [foldl_rebuildParameter, rebuiltState]
  generalize keptParameters flags parameters = kept at hsub hsum ⊢
  constructor
  · cases kept with
    | nil => exact Nat.zero_le _
    | cons parameter kept =>
      have hlength := length_intercalate_succ andSign
        (List.cons_ne_nil parameter.text (kept.map Parameter.text))
      rw [← List.map_cons, List.map_map, ← queryStringify_eq] at hlength
      simp only [Function.comp_def] at hlength
      omega
  · split
    · exact hsub.length_le
    · exact Nat.zero_le _

/-! ## The call -/

/-- A call that no redirection ends, with what is left of the URI and of its query when the rules
have been stripped. -/
def LeavesQuery {Code : Type} (pcre : Pcre Code) (rulesets : Rulesets Code) (args : CleanArgs)
    (left : URI) (query : Bytes) : Prop :=
  ∃ sourceUrl uri, args.sourceUrl = some sourceUrl ∧ 1 ≤ rulesets.offset ∧
    uriParse {} sourceUrl = .ok uri ∧
    cleanRulesets pcre args.flags sourceUrl rulesets.items uri = .inr left ∧
    left.query = some query

/-- **The query of the result** consists of the parameters kept of the query that the rules left,
and is removed when none is. -/
theorem cleanStep_keptParameters {Code : Type} {pcre : Pcre Code} {rulesets : Rulesets Code}
    {args : CleanArgs} {left : URI} {query : Bytes} (h : LeavesQuery pcre rulesets args left query) :
    cleanStep pcre rulesets args = .inr (.ok (uriStringify
      { left with query := renderedQuery (keptParameters args.flags (queryParse query)) })) := by
  obtain ⟨sourceUrl, uri, hsource, hoffset, hparse, hloop, hquery⟩ := h
  have hoffset' : ¬ rulesets.offset < 1 := by omega
  cases sourceUrl with
  | nil => cases hparse
  | cons c sourceUrl =>
    simp only [cleanStep, hsource, if_neg hoffset', hparse, hloop, hquery, rebuildQuery_eq]

/-- The first occurrence of a key is left out because it has no value, and the second one stays. -/
theorem cleanStep_keptParameters_empty :
    let args : CleanArgs := ⟨some (str "http://a.com/?a=&a=1&b=2&a=3"),
      { stripEmpty := 1, stripDuplicates := 1 }⟩
    let left : URI :=
      { scheme := some (str "http"), hostname := some (str "a.com")
        query := some (str "a=&a=1&b=2&a=3") }
    cleanStep Pattern.pcre ⟨88, [sampleRuleset]⟩ args = .inr (.ok (uriStringify
      { left with
        query := renderedQuery (keptParameters args.flags (queryParse (str "a=&a=1&b=2&a=3"))) })) := by
  intro args left
  have hparse : uriParse {} (str "http://a.com/?a=&a=1&b=2&a=3") = .ok left := by decide +kernel
  have hloop : cleanRulesets Pattern.pcre args.flags (str "http://a.com/?a=&a=1&b=2&a=3")
      [sampleRuleset] left = .inr left := by
    decide +kernel
  exact cleanStep_keptParameters ⟨_, left, rfl, by decide, hparse, hloop, rfl⟩

end Unalix
